import PostgresChat.Chat.History
import PostgresChat.Chat.Paging
import PostgresChat.Database.Broadcast
import PostgresChat.Js.Stringify
import PostgresChat.Js.Utf8

/-!
# The object of a message

A client gets a message in two ways. On the live path `notify_new_message` writes the row with
`json_build_object`, the node parses that text and writes it again in a batch. On the read paths the
driver makes an object of the row, and the node writes that one: in a history frame, in a page of
`getMessages` or as the result of `postMessage`.

Texts are the same on all paths, whatever they contain, although one is escaped by the database and
the others are not. `id` and `seq` are not: `json_build_object` writes a `BIGINT` as a number, and
the driver returns it as text.
-/

namespace PostgresChat

open JsString (lit toWellFormed escapeUnit ofCodePoint codePoints IsScalar)

/-! ## The payload of a notification -/

/-- A byte of a longer character is never escaped. -/
theorem escapeByte_of_le {b : UInt8} (hb : 0x80 ≤ b.toNat) : escapeByte b = [b] := by
  have hne : ∀ c : UInt8, c.toNat < 0x80 → b ≠ c := by
    rintro c hc rfl
    omega
  rw [escapeByte, if_neg, if_neg (hne _ (by decide)), if_neg (hne _ (by decide)),
    if_neg (hne _ (by decide)), if_neg (hne _ (by decide)), if_neg (hne _ (by decide)),
    if_neg (by omega)]
  exact not_or.mpr ⟨hne _ (by decide), hne _ (by decide)⟩

/-- What `escape_json` writes for a character, as text. -/
def escapeCodePoint (n : ℕ) : JsString :=
  if n < 0x80 then escapeUnit n.toUInt16 else ofCodePoint n

theorem decodes_escapeByte {n : ℕ} (hn : IsScalar n) :
    Utf8.Decodes ((JsString.utf8Bytes n).flatMap escapeByte) (escapeCodePoint n) := by
  have hascii : ∀ n : Fin 0x80, (escapeUnit n.val.toUInt16).all JsString.isAscii = true ∧
      escapeByte n.val.toUInt8 =
        (escapeUnit n.val.toUInt16).map fun u ↦ u.toNat.toUInt8 := by decide
  rw [escapeCodePoint]
  split
  · rename_i hlt
    obtain ⟨hall, hbytes⟩ := hascii ⟨n, hlt⟩
    rw [JsString.utf8Bytes, if_pos hlt, List.flatMap_singleton, hbytes]
    exact Utf8.decodes_of_isAscii hall
  · rename_i hge
    have hlong : ∀ b ∈ JsString.utf8Bytes n, escapeByte b = [b] := fun b hb ↦
      escapeByte_of_le (Utf8.le_toNat_of_mem_utf8Bytes hn (Nat.not_lt.mp hge) hb)
    rw [List.flatMap_congr hlong, List.flatMap_singleton']
    exact Utf8.decodes_utf8Bytes hn

theorem lexFrom_escapeCodePoint {n : ℕ} (hn : IsScalar n) (s text : JsString) :
    Json.lexFrom (.string s) (escapeCodePoint n ++ text) =
      Json.lexFrom (.string ((ofCodePoint n).reverse ++ s)) text := by
  rw [escapeCodePoint]
  split
  · rename_i hlt
    rw [Json.lexFrom_escapeUnit, ofCodePoint, if_pos (by omega)]
    rfl
  · rename_i hge
    have hunit : ∀ m, m < 0x10000 → m.toUInt16.toNat = m := fun m hm ↦ by
      rw [Nat.toUInt16_eq, UInt16.toNat_ofNat', Nat.mod_eq_of_lt hm]
    rw [IsScalar] at hn
    rw [ofCodePoint]
    split
    · rename_i hsingle
      have hne : ∀ w : UInt16, w.toNat < 0x80 → n.toUInt16 ≠ w := by
        rintro w hw rfl
        rw [hunit n hsingle] at hw
        exact hge hw
      refine Json.lexFrom_unit (hne _ (by decide)) (hne _ (by decide)) ?_ s text
      rw [hunit n hsingle]
      omega
    · rw [List.cons_append, List.singleton_append, Json.lexFrom_surrogate, Json.lexFrom_surrogate]
      · rfl
      · rw [hunit _ (by omega)]
        omega
      · rw [hunit _ (by omega)]
        omega

theorem lexFrom_escapeCodePoints {l : List ℕ} (hl : ∀ n ∈ l, IsScalar n) (s text : JsString) :
    Json.lexFrom (.string s) (l.flatMap escapeCodePoint ++ text) =
      Json.lexFrom (.string ((l.flatMap ofCodePoint).reverse ++ s)) text := by
  induction l generalizing s with
  | nil => rfl
  | cons n l ih =>
    rw [List.flatMap_cons, List.append_assoc, lexFrom_escapeCodePoint (hl n List.mem_cons_self),
      ih fun m hm ↦ hl m (List.mem_cons_of_mem _ hm), List.flatMap_cons, List.reverse_append,
      List.append_assoc]

/-- **`escape_json`.** The literal is decoded and read as the text. -/
theorem exists_spells_escapeJson (s : JsString) :
    ∃ text, Utf8.Decodes (escapeJson s) text ∧ Json.Spells text (.string (toWellFormed s)) := by
  have hscalar : ∀ n ∈ codePoints s, IsScalar n := fun n ↦ JsString.isScalar_of_mem_codePoints
  refine ⟨0x22 :: (codePoints s).flatMap escapeCodePoint ++ [0x22], ?_, ?_⟩
  · have hquote : Utf8.Decodes [0x22] [0x22] := Utf8.decodes_ascii (n := 0x22) (by decide)
    rw [escapeJson, JsString.utf8, List.flatMap_assoc]
    exact (hquote.append (.flatMap fun n hn ↦ decodes_escapeByte (hscalar n hn))).append hquote
  · refine Json.spells_literal fun text ↦ ?_
    rw [lexFrom_escapeCodePoints hscalar, List.append_nil]
    rfl

/-- The bytes are those of a JSON text of the value. -/
def Denotes (bytes : Bytes) (v : Json) : Prop :=
  ∃ text, Utf8.Decodes bytes text ∧ Json.ReadsAs text v

theorem Denotes.parse {bytes : Bytes} {v : Json} (h : Denotes bytes v) :
    Json.parse (Utf8.decode bytes) = some v := by
  obtain ⟨text, hdecodes, hreads⟩ := h
  rw [hdecodes.decode, hreads.parse]

theorem denotes_escapeJson (s : JsString) : Denotes (escapeJson s) (.string (toWellFormed s)) := by
  obtain ⟨text, hdecodes, hspells⟩ := exists_spells_escapeJson s
  exact ⟨text, hdecodes, hspells.readsAs⟩

/-- A `BIGINT` is a number. -/
theorem denotes_decimal (n : ℕ) :
    Denotes (JsString.utf8 (JsNumber.decimal n)) (.number (JsNumber.round n)) := by
  have hascii : (JsNumber.decimal n).all JsString.isAscii = true := by
    rw [List.all_eq_true]
    intro u hu
    have hdigit := JsNumber.isDigit_of_mem_decimal hu
    rw [JsNumber.isDigit, Bool.and_eq_true, decide_eq_true_eq, decide_eq_true_eq] at hdigit
    rw [JsString.isAscii, decide_eq_true_eq]
    omega
  have hdecodes := Utf8.decodes_utf8 (JsNumber.decimal n)
  rw [JsString.toWellFormed_of_isAscii hascii] at hdecodes
  exact ⟨_, hdecodes, Json.readsAs_decimal n⟩

/-- An object whose members are put together with some comma and some colon. -/
theorem denotes_object {comma colon : JsString} (hcomma : Json.Spells (toWellFormed comma) .comma)
    (hcolon : Json.Spells (toWellFormed colon) .colon) {members : List (JsString × Bytes)}
    {values : List (JsString × Json)}
    (h : List.Forall₂ (fun m m' ↦ m'.1 = toWellFormed m.1 ∧ Denotes m.2 m'.2) members values) :
    Denotes (JsString.utf8 (lit "\x7b") ++ (JsString.utf8 comma).intercalate
      (members.map fun m ↦ escapeJson m.1 ++ JsString.utf8 colon ++ m.2) ++
      JsString.utf8 (lit "\x7d")) (.object values) := by
  have hpieces : ∃ texts, List.Forall₂ Utf8.Decodes
        (members.map fun m ↦ escapeJson m.1 ++ JsString.utf8 colon ++ m.2) texts ∧
      List.Forall₂ Json.ReadsMember texts values := by
    induction h with
    | nil => exact ⟨[], .nil, .nil⟩
    | @cons m m' members values hfirst hrest ih =>
      obtain ⟨texts, hdecodes, hreads⟩ := ih
      obtain ⟨hname, text, hvalueDecodes, hvalueReads⟩ := hfirst
      obtain ⟨nameText, hnameDecodes, hnameSpells⟩ := exists_spells_escapeJson m.1
      rw [← hname] at hnameSpells
      refine ⟨(nameText ++ toWellFormed colon ++ text) :: texts, .cons ?_ hdecodes, .cons ?_ hreads⟩
      · exact (hnameDecodes.append (Utf8.decodes_utf8 colon)).append hvalueDecodes
      · exact Json.readsMember hnameSpells hcolon hvalueReads
  obtain ⟨texts, hdecodes, hreads⟩ := hpieces
  exact ⟨[0x7B] ++ (toWellFormed comma).intercalate texts ++ [0x7D],
    ((Utf8.decodes_utf8 (lit "\x7b")).append
      ((Utf8.decodes_utf8 comma).intercalate hdecodes)).append (Utf8.decodes_utf8 (lit "\x7d")),
    Json.readsAs_object hcomma hreads⟩

/-- **`json_build_object`.** -/
theorem denotes_jsonBuildObject {members : List (JsString × Bytes)}
    {values : List (JsString × Json)}
    (h : List.Forall₂ (fun m m' ↦ m'.1 = toWellFormed m.1 ∧ Denotes m.2 m'.2) members values) :
    Denotes (jsonBuildObject members) (.object values) := by
  have hcomma : Json.Spells (toWellFormed (lit ", ")) .comma := Json.spells_comma.append_space
  have hcolon : Json.Spells (toWellFormed (lit " : ")) .colon :=
    Json.spells_colon.append_space.space_cons
  exact denotes_object hcomma hcolon h

/-! ## The two objects -/

/-- `JSON.parse(payload)` in the listener for notifications. -/
def MessageRow.announced (timestamp : ℕ → JsString) (row : MessageRow) : Option Json :=
  Json.parse (Utf8.decode (row.notifyPayload timestamp))

/-- What the driver makes of a text column. -/
def textColumn (s : JsString) : Json := .string (Utf8.decode (JsString.utf8 s))

/-- What the driver makes of a `BIGINT` column. -/
def bigintColumn (n : ℕ) : Json := .string (JsNumber.decimal n)

/-- A row of a query's result, as `JSON.stringify` sees it; `isoString` is how a date is written by
`Date.prototype.toJSON`. -/
def MessageRow.toJson (isoString : ℕ → JsString) (row : MessageRow) : Json :=
  .object [(lit "id", bigintColumn row.id), (lit "seq", bigintColumn row.seq),
    (lit "room_id", textColumn row.roomId.text), (lit "user_id", textColumn row.userId),
    (lit "username", textColumn row.username), (lit "content", textColumn row.content),
    (lit "created_at", .string (isoString row.createdAt))]

/-- What the listener has parsed. -/
def MessageRow.payload (timestamp : ℕ → JsString) (row : MessageRow) : Json :=
  .object [(lit "id", .number (JsNumber.round row.id)),
    (lit "seq", .number (JsNumber.round row.seq)),
    (lit "room_id", .string (toWellFormed row.roomId.text)),
    (lit "user_id", .string (toWellFormed row.userId)),
    (lit "username", .string (toWellFormed row.username)),
    (lit "content", .string (toWellFormed row.content)),
    (lit "created_at", .string (toWellFormed (timestamp row.createdAt)))]

theorem announced_eq (timestamp : ℕ → JsString) (row : MessageRow) :
    row.announced timestamp = some (row.payload timestamp) := by
  have hname : ∀ (name : String) {bytes : Bytes} {v : Json},
      (lit name).all JsString.isAscii = true → Denotes bytes v →
      lit name = toWellFormed (lit name) ∧ Denotes bytes v :=
    fun _ _ _ hascii hdenotes ↦ ⟨(JsString.toWellFormed_of_isAscii hascii).symm, hdenotes⟩
  refine (denotes_jsonBuildObject ?_).parse
  exact .cons (hname "id" (by decide) (denotes_decimal row.id)) <|
    .cons (hname "seq" (by decide) (denotes_decimal row.seq)) <|
    .cons (hname "room_id" (by decide) (denotes_escapeJson row.roomId.text)) <|
    .cons (hname "user_id" (by decide) (denotes_escapeJson row.userId)) <|
    .cons (hname "username" (by decide) (denotes_escapeJson row.username)) <|
    .cons (hname "content" (by decide) (denotes_escapeJson row.content)) <|
    .cons (hname "created_at" (by decide) (denotes_escapeJson (timestamp row.createdAt))) .nil

/-! ## What the client gets -/

/-- The buffer as `flushRoomMessageBatches` broadcasts it. -/
def newMessageBatchFrame (batch : List Json) : Json :=
  .object [(lit "event", .string (lit "new_message_batch")), (lit "data", .array batch)]

/-- The frame that `handleJoinRoom` sends. -/
def historyFrame (isoString : ℕ → JsString) (messages : List MessageRow) (nextCursor : Cursor) :
    Json :=
  .object [(lit "event", .string (lit "history")),
    (lit "data", .object [(lit "messages", .array (messages.map (·.toJson isoString))),
      (lit "next_cursor", nextCursor.toJson)])]

/-- The body of a response of `getMessages`. -/
def Page.toJson (isoString : ℕ → JsString) (page : Page) : Json :=
  .object [(lit "messages", .array (page.messages.map (·.toJson isoString))),
    (lit "next_cursor", page.nextCursor.elim .null .string)]

/-- Item number `i` of an array. -/
def itemAt (i : ℕ) : Json → Option Json
  | .array items => items[i]?
  | _ => none

/-- What a client reads from the text of the value. -/
def sent (v : Json) : Option Json := Json.parse (Json.stringify v)

/-- The object at position `i` of a batch. A payload that is not parsed is not put into the
buffer. -/
def liveView (timestamp : ℕ → JsString) (batch : List MessageRow) (i : ℕ) : Option Json := do
  let frame ← sent (newMessageBatchFrame (batch.filterMap (·.announced timestamp)))
  itemAt i (← frame.member (lit "data"))

/-- The object at position `i` of a history frame. -/
def historyView (isoString : ℕ → JsString) (messages : List MessageRow) (lastSeenSeq : JsNumber)
    (i : ℕ) : Option Json := do
  let frame ← sent (historyFrame isoString messages (nextCursor messages lastSeenSeq))
  itemAt i (← (← frame.member (lit "data")).member (lit "messages"))

/-- The object at position `i` of a page of `getMessages`. -/
def pageView (isoString : ℕ → JsString) (page : Page) (i : ℕ) : Option Json := do
  let body ← sent (page.toJson isoString)
  itemAt i (← body.member (lit "messages"))

/-- The result of `postMessage`. -/
def postView (isoString : ℕ → JsString) (row : MessageRow) : Option Json :=
  sent (row.toJson isoString)

/-- The members that hold text. -/
def textNames : List JsString := [lit "room_id", lit "user_id", lit "username", lit "content"]

/-- The two objects have the same members, as `RoomMessagePayload` and `MessageDto` declare
them. -/
structure ViewsAgree (live stored : Json) : Prop where
  equal : ∀ name ∈ [lit "id", lit "seq"] ++ textNames,
    ∃ v, live.member name = some v ∧ stored.member name = some v
  numbers : ∀ name ∈ [lit "id", lit "seq"], ∃ n, live.member name = some (.number n)
  texts : ∀ name ∈ textNames, ∃ s, live.member name = some (.string s)

/-- The two objects have the same texts, but not the same numbers: what is a number in one is text
in the other. -/
structure OnlyTextsAgree (row : MessageRow) (live stored : Json) : Prop where
  id : live.member (lit "id") = some (.number (JsNumber.round row.id)) ∧
    stored.member (lit "id") = some (.string (JsNumber.decimal row.id))
  seq : live.member (lit "seq") = some (.number (JsNumber.round row.seq)) ∧
    stored.member (lit "seq") = some (.string (JsNumber.decimal row.seq))
  texts : ∀ name ∈ textNames,
    ∃ s, live.member name = some (.string s) ∧ stored.member name = some (.string s)

theorem OnlyTextsAgree.not_viewsAgree {row : MessageRow} {live stored : Json}
    (h : OnlyTextsAgree row live stored) : ¬ ViewsAgree live stored := by
  intro hagree
  obtain ⟨v, hlive, hstored⟩ := hagree.equal (lit "id") List.mem_cons_self
  rw [h.id.1] at hlive
  rw [h.id.2, ← hlive] at hstored
  cases hstored

theorem onlyTextsAgree (timestamp isoString : ℕ → JsString) (row : MessageRow) :
    OnlyTextsAgree row (row.payload timestamp) (row.toJson isoString) where
  id := ⟨rfl, rfl⟩
  seq := ⟨rfl, rfl⟩
  texts := by
    have hcolumn : ∀ s, some (textColumn s) = some (.string (toWellFormed s)) := fun s ↦ by
      rw [textColumn, Utf8.decode_utf8]
    simp only [textNames, List.forall_mem_cons]
    exact ⟨⟨_, rfl, hcolumn _⟩, ⟨_, rfl, hcolumn _⟩, ⟨_, rfl, hcolumn _⟩, ⟨_, rfl, hcolumn _⟩,
      fun _ h ↦ absurd h List.not_mem_nil⟩

/-! ## The frames are read back -/

open Json (Readable AllNumbers allNumbers_object allNumbers_array allNumbers_string
  allNumbers_number)

theorem allNumbers_cons {members : List (JsString × Json)} {name : JsString} {v : Json}
    (hv : v.AllNumbers Readable) (h : (Json.object members).AllNumbers Readable) :
    (Json.object ((name, v) :: members)).AllNumbers Readable :=
  allNumbers_object.mpr (List.forall_mem_cons.mpr ⟨hv, allNumbers_object.mp h⟩)

theorem allNumbers_nil : (Json.object []).AllNumbers Readable :=
  allNumbers_object.mpr fun _ h ↦ absurd h List.not_mem_nil

/-- The `BIGINT`s of the row are in the range of the type. -/
def MessageRow.Fits (row : MessageRow) : Prop := row.id < 2 ^ 63 ∧ row.seq < 2 ^ 63

theorem allNumbers_payload (timestamp : ℕ → JsString) {row : MessageRow} (h : row.Fits) :
    (row.payload timestamp).AllNumbers Readable :=
  allNumbers_cons (allNumbers_number (Json.readable_round h.1)) <|
    allNumbers_cons (allNumbers_number (Json.readable_round h.2)) <|
    allNumbers_cons allNumbers_string <| allNumbers_cons allNumbers_string <|
    allNumbers_cons allNumbers_string <| allNumbers_cons allNumbers_string <|
    allNumbers_cons allNumbers_string allNumbers_nil

theorem allNumbers_toJson (isoString : ℕ → JsString) (row : MessageRow) :
    (row.toJson isoString).AllNumbers Readable :=
  allNumbers_cons allNumbers_string <| allNumbers_cons allNumbers_string <|
    allNumbers_cons allNumbers_string <| allNumbers_cons allNumbers_string <|
    allNumbers_cons allNumbers_string <| allNumbers_cons allNumbers_string <|
    allNumbers_cons allNumbers_string allNumbers_nil

theorem allNumbers_rows (isoString : ℕ → JsString) (messages : List MessageRow) :
    (Json.array (messages.map (·.toJson isoString))).AllNumbers Readable := by
  refine allNumbers_array.mpr fun v hv ↦ ?_
  obtain ⟨row, -, rfl⟩ := List.mem_map.mp hv
  exact allNumbers_toJson isoString row

theorem liveView_eq (timestamp : ℕ → JsString) {batch : List MessageRow}
    (hbatch : ∀ m ∈ batch, m.Fits) (i : ℕ) :
    liveView timestamp batch i = batch[i]?.map (·.payload timestamp) := by
  have hparsed : batch.filterMap (·.announced timestamp) = batch.map (·.payload timestamp) := by
    rw [funext (announced_eq timestamp)]
    exact congrFun List.filterMap_eq_map batch
  have hframe : (newMessageBatchFrame (batch.map (·.payload timestamp))).AllNumbers Readable := by
    refine allNumbers_cons allNumbers_string (allNumbers_cons ?_ allNumbers_nil)
    refine allNumbers_array.mpr fun v hv ↦ ?_
    obtain ⟨row, hrow, rfl⟩ := List.mem_map.mp hv
    exact allNumbers_payload timestamp (hbatch row hrow)
  rw [liveView, hparsed, sent, Json.parse_stringify hframe, ← List.getElem?_map]
  rfl

theorem historyView_eq (isoString : ℕ → JsString) {messages : List MessageRow}
    (lastSeenSeq : JsNumber) {j : ℕ} {row : MessageRow} (hrow : messages[j]? = some row) :
    historyView isoString messages lastSeenSeq j = some (row.toJson isoString) := by
  have hframe : (historyFrame isoString messages (nextCursor messages lastSeenSeq)).AllNumbers
      Readable := by
    obtain ⟨k, hk⟩ := nextCursor_of_ne_nil (List.ne_nil_of_mem (List.mem_of_getElem? hrow))
      lastSeenSeq
    rw [hk]
    refine allNumbers_cons allNumbers_string (allNumbers_cons ?_ allNumbers_nil)
    exact allNumbers_cons (allNumbers_rows isoString messages)
      (allNumbers_cons allNumbers_string allNumbers_nil)
  have hitem : (messages.map (·.toJson isoString))[j]? = some (row.toJson isoString) := by
    rw [List.getElem?_map, hrow, Option.map_some]
  rw [historyView, sent, Json.parse_stringify hframe]
  exact hitem

theorem pageView_eq (isoString : ℕ → JsString) {page : Page} {j : ℕ} {row : MessageRow}
    (hrow : page.messages[j]? = some row) :
    pageView isoString page j = some (row.toJson isoString) := by
  have hbody : (page.toJson isoString).AllNumbers Readable := by
    refine allNumbers_cons (allNumbers_rows isoString page.messages)
      (allNumbers_cons ?_ allNumbers_nil)
    cases page.nextCursor with
    | none => rintro _ ⟨⟩
    | some cursor => exact allNumbers_string
  have hitem : (page.messages.map (·.toJson isoString))[j]? = some (row.toJson isoString) := by
    rw [List.getElem?_map, hrow, Option.map_some]
  rw [pageView, sent, Json.parse_stringify hbody]
  exact hitem

theorem postView_eq (isoString : ℕ → JsString) (row : MessageRow) :
    postView isoString row = some (row.toJson isoString) :=
  Json.parse_stringify (allNumbers_toJson isoString row)

/-! ## The views never agree -/

/-- **The live view of a message agrees with no stored one.** Whatever batch the message is in, and
whatever history frame or page, the client gets an object on every path; it has the same texts on
all of them, and an `id` and a `seq` that are numbers on the live path only. -/
theorem views_never_agree (timestamp isoString : ℕ → JsString) (batch : List MessageRow)
    (hbatch : ∀ m ∈ batch, m.Fits) (i : ℕ) (row : MessageRow) (hrow : batch[i]? = some row) :
    ∃ live, liveView timestamp batch i = some live ∧
      (∀ messages lastSeenSeq j, messages[j]? = some row →
        ∃ stored, historyView isoString messages lastSeenSeq j = some stored ∧
          OnlyTextsAgree row live stored ∧ ¬ ViewsAgree live stored) ∧
      (∀ (page : Page) (j : ℕ), page.messages[j]? = some row →
        ∃ stored, pageView isoString page j = some stored ∧
          OnlyTextsAgree row live stored ∧ ¬ ViewsAgree live stored) ∧
      ∃ stored, postView isoString row = some stored ∧
        OnlyTextsAgree row live stored ∧ ¬ ViewsAgree live stored := by
  have hdiffer := onlyTextsAgree timestamp isoString row
  refine ⟨row.payload timestamp, ?_, fun messages lastSeenSeq j hj ↦ ?_, fun page j hj ↦ ?_, ?_⟩
  · rw [liveView_eq timestamp hbatch, hrow, Option.map_some]
  · exact ⟨_, historyView_eq isoString lastSeenSeq hj, hdiffer, hdiffer.not_viewsAgree⟩
  · exact ⟨_, pageView_eq isoString hj, hdiffer, hdiffer.not_viewsAgree⟩
  · exact ⟨_, postView_eq isoString row, hdiffer, hdiffer.not_viewsAgree⟩

/-- A batch of one message, and the response to the request that has sent it. -/
theorem views_never_agree_oneMessage :
    ∃ live stored, liveView (fun _ ↦ []) Db.oneMessage.messages 0 = some live ∧
      postView (fun _ ↦ []) ⟨1, 1, .nil, [0x61], [0x61], [0x31], 0⟩ = some stored ∧
      ¬ ViewsAgree live stored := by
  obtain ⟨live, hlive, -, -, stored, hstored, -, hne⟩ :=
    views_never_agree (fun _ ↦ []) (fun _ ↦ []) Db.oneMessage.messages
      (fun m hm ↦ by
        obtain rfl := List.mem_singleton.mp hm
        exact ⟨by decide, by decide⟩) 0 _ rfl
  exact ⟨live, stored, hlive, hstored, hne⟩

/-- The `id` is the number `1` in the batch and the string `"1"` in the response. -/
theorem id_number_and_text :
    ∃ live stored, liveView (fun _ ↦ []) Db.oneMessage.messages 0 = some live ∧
      postView (fun _ ↦ []) ⟨1, 1, .nil, [0x61], [0x61], [0x31], 0⟩ = some stored ∧
      live.member (lit "id") = some (.number (.finite (1 : ℕ))) ∧
      stored.member (lit "id") = some (.string (lit "1")) ∧ ¬ ViewsAgree live stored := by
  have hfits : ∀ m ∈ Db.oneMessage.messages, m.Fits := fun m hm ↦ by
    obtain rfl := List.mem_singleton.mp hm
    exact ⟨by decide, by decide⟩
  refine ⟨_, _, liveView_eq (fun _ ↦ []) hfits 0, postView_eq _ _, ?_, rfl,
    (onlyTextsAgree (fun _ ↦ []) (fun _ ↦ []) _).not_viewsAgree⟩
  exact congrArg (some ∘ Json.number) (JsNumber.round_natCast (by norm_num))

end PostgresChat
