import PostgresChat.Chat.Outgoing
import PostgresChat.Cluster.Provenance
import PostgresChat.Node.Sent

/-!
# From one client to another

A text that a client sends is parsed, stored, notified, parsed and written again before another
client reads it, or stored, queried and written. Here the ends are put together: whatever happens in
between, what a client reads of a frame is the frame, and each message it finds in there is one that
a client has asked for, with its text unit by unit, but for surrogates without a partner, in whose
place there is U+FFFD.
-/

namespace PostgresChat

open Execution
open JsString (lit toWellFormed)

/-- The objects of the messages in a frame: `data` of a batch, or `data.messages` of a history
frame. -/
def messagesIn (frame : Json) : List Json :=
  match frame.member (lit "data") with
  | some (.array items) => items
  | some data =>
    match data.member (lit "messages") with
    | some (.array items) => items
    | _ => []
  | none => []

/-- Every frame that arrives has been read from bytes. -/
def ClusterEvent.FromWire : ClusterEvent → Prop
  | .node _ e => e.FromWire
  | _ => True

/-! ## Frames -/

/-- What is known of a frame: the rows in it are messages with numbers in the range of their type,
and its cursor can be written. -/
theorem ServerFrame.fits {frame : ServerFrame} (hcursor : frame.CursorFits)
    (hrows : ∀ row ∈ frame.rows, row.Fits) : frame.Fits := by
  rcases frame with _ | ⟨messages, _ | n⟩ | _ | messages | _ | _
  · exact trivial
  · exact trivial
  · exact hcursor
  · exact trivial
  · exact hrows
  · exact trivial
  · exact trivial

/-- The texts of the object of a row. -/
structure Shows (object : Json) (row : MessageRow) : Prop where
  roomId : object.member (lit "room_id") = some (.string row.roomId.text)
  userId : object.member (lit "user_id") = some (.string (toWellFormed row.userId))
  username : object.member (lit "username") = some (.string (toWellFormed row.username))
  content : object.member (lit "content") = some (.string (toWellFormed row.content))

theorem shows_payload (timestamp : ℕ → JsString) (row : MessageRow) :
    Shows (row.payload timestamp) row :=
  ⟨congrArg (some ∘ Json.string) row.roomId.toWellFormed_text, rfl, rfl, rfl⟩

theorem shows_toJson (isoString : ℕ → JsString) (row : MessageRow) :
    Shows (row.toJson isoString) row := by
  have hcolumn : ∀ s, textColumn s = .string (toWellFormed s) := fun s ↦ by
    rw [textColumn, Utf8.decode_utf8]
  refine ⟨?_, congrArg some (hcolumn _), congrArg some (hcolumn _), congrArg some (hcolumn _)⟩
  rw [← row.roomId.toWellFormed_text, ← hcolumn]
  rfl

/-- The objects in a frame are those of its rows. -/
theorem ServerFrame.shows_of_mem {timestamp isoString : ℕ → JsString} {frame : ServerFrame}
    {object : Json} (h : object ∈ messagesIn (frame.toJson timestamp isoString)) :
    ∃ row ∈ frame.rows, Shows object row := by
  rcases frame with ⟨message, code⟩ | ⟨messages, cursor⟩ | roomId | messages | row | row
  · revert h
    rw [ServerFrame.toJson]
    rcases code.filter (· ≠ []) with _ | code <;> rintro ⟨⟩
  · obtain ⟨row, hrow, rfl⟩ := List.mem_map.mp (show object ∈ messages.map _ from h)
    exact ⟨row, hrow, shows_toJson isoString row⟩
  · cases h
  · obtain ⟨row, hrow, rfl⟩ := List.mem_map.mp (show object ∈ messages.map _ from h)
    exact ⟨row, hrow, shows_payload timestamp row⟩
  · cases h
  · cases h

/-! ## The numbers of a message -/

/-- There are no more messages than ids have been given. -/
theorem Db.Recorded.length_messages {db : Db} (h : db.Recorded) :
    db.messages.length ≤ db.nextMessageId := by
  have hsubset : db.messages.map MessageRow.id ⊆ List.range db.nextMessageId := by
    intro id hid
    obtain ⟨row, hrow, rfl⟩ := List.mem_map.mp hid
    obtain ⟨t, ins, hget, hstage⟩ := (h.committed row).mp hrow
    rw [← ((h.accurate t ins hget).params (Db.row?_of_committed hstage)).1]
    exact List.mem_range.mpr (h.fresh t ins hget)
  have hlength := (h.nodup.subperm hsubset).length_le
  rwa [List.length_map, List.length_range] at hlength

theorem Db.Recorded.fits {db : Db} (h : db.Recorded) (hinv : db.SeqInv)
    (hserial : db.nextMessageId < 2 ^ 63) {row : MessageRow} (hrow : row ∈ db.messages) :
    row.Fits := by
  obtain ⟨t, ins, hget, hstage⟩ := (h.committed row).mp hrow
  have hid := ((h.accurate t ins hget).params (Db.row?_of_committed hstage)).1
  have hfresh := h.fresh t ins hget
  have hmem : row ∈ db.messagesOf row.roomId :=
    List.mem_filter.mpr ⟨hrow, decide_eq_true rfl⟩
  have hseq := Db.mem_seqs.mpr ⟨row, hmem, rfl⟩
  rw [hinv.range, List.mem_range'_1] at hseq
  have hroom : (db.seqs row.roomId).length ≤ db.messages.length := by
    rw [Db.seqs, List.length_map]
    exact List.length_filter_le _ _
  have hlength := h.length_messages
  exact ⟨by omega, by omega⟩

namespace Cluster

variable {c c' : Cluster}

theorem written_of_run {nodeIds : List JsString} {es : List ClusterEvent}
    (hrun : run step (start nodeIds) es = some c) (hwire : ∀ e ∈ es, e.FromWire) :
    ∀ n ∈ c.nodes, n.Written := by
  refine (guarded_invariant (fun c : Cluster ↦ c.Agrees ∧ ∀ n ∈ c.nodes, n.Written) ?_
    ⟨agrees_start nodeIds, fun n hn ↦ ?_⟩ (guarded_of_forall _ hwire _) hrun).2
  · rintro c e c' ⟨hagrees, hwritten⟩ he hstep
    refine ⟨hagrees.step hstep, fun n' hn' ↦ ?_⟩
    obtain ⟨i, hget'⟩ := List.mem_iff_getElem?.mp hn'
    obtain ⟨n, hget, -, -, rfl | ⟨e', rfl, hstep'⟩ | ⟨d, -, hstep'⟩⟩ :=
      hagrees.node_cases hstep hget'
    · exact hwritten _ (List.mem_of_getElem? hget)
    · exact (hwritten n (List.mem_of_getElem? hget)).step he hstep'
    · exact (hwritten n (List.mem_of_getElem? hget)).step (by rintro _ _ ⟨⟩) hstep'
  · obtain ⟨nodeId, -, rfl⟩ := List.mem_map.mp hn
    exact Node.written_start nodeId

theorem seqInv_of_run {nodeIds : List JsString} {es : List ClusterEvent}
    (hrun : run step (start nodeIds) es = some c) : c.db.SeqInv := by
  refine run_invariant (fun c : Cluster ↦ c.db.SeqInv) (fun h hstep ↦ ?_) Db.seqInv_empty hrun
  rcases db_of_step hstep with ⟨-, hdb⟩ | ⟨d, -, hdb⟩
  · exact hdb ▸ h
  · exact h.step (Db.seqStep_of_step hdb)

/-- A committed message is one that a client has asked for. -/
theorem asked_of_traced {P : Deed → Prop} (h : Traced P c) {row : MessageRow}
    (hrow : row ∈ c.db.messages) : ∃ q R, Uuid.parse R = some row.roomId ∧
      P (.asks q row.userId R row.content) ∧ c.db.username row.userId = some row.username := by
  obtain ⟨t, ins, hget, hstage⟩ := (h.recorded.committed row).mp hrow
  have haccurate := h.recorded.accurate t ins hget
  obtain ⟨-, hroom, hu, hcontent⟩ := haccurate.params (Db.row?_of_committed hstage)
  obtain ⟨q, R, hr, hasks, -⟩ := h.inserts t ins hget
  rw [← hu, ← hroom, ← hcontent]
  exact ⟨q, R, hr, hasks, (haccurate.row row (Db.row?_of_committed hstage)).2⟩

/-- **What is read is what has been asked for.** In every run of any number of nodes and controllers
in which frames are read from bytes and the ids of messages have not run out: each frame that a
socket is sent is read, from its bytes, as the object that was written; and each message in it is
one that a client has asked for, by a frame or a call, with its texts as UTF-8 carries them, under
the name of this user. -/
theorem read_as_asked {nodeIds : List JsString} {es : List ClusterEvent}
    (hrun : run step (start nodeIds) es = some c) (hwire : ∀ e ∈ es, e.FromWire)
    (hserial : c.db.nextMessageId < 2 ^ 63) (timestamp isoString : ℕ → JsString) :
    ∀ n ∈ c.nodes, ∀ s frame, n.Sent s frame →
      Json.ofBytes (frame.toBytes timestamp isoString) = some (frame.toJson timestamp isoString) ∧
      ∀ object ∈ messagesIn (frame.toJson timestamp isoString),
        ∃ (q : RequestId) (u : UserId) (R : RoomId) (r : Uuid) (username content : JsString),
        Happened step (Asks q u R content) (start nodeIds) es ∧ Uuid.parse R = some r ∧
        c.db.username u = some username ∧
        object.member (lit "room_id") = some (.string r.text) ∧
        object.member (lit "user_id") = some (.string (toWellFormed u)) ∧
        object.member (lit "username") = some (.string (toWellFormed username)) ∧
        object.member (lit "content") = some (.string (toWellFormed content)) := by
  intro n hn s frame hsent
  have htraced := happened_invariant Deed.Seen Traced (fun h hstep ↦ h.step hstep)
    (traced_start nodeIds) hrun
  have hbacked := forall_nodes_of_run Node.backed_start (fun h hstep ↦ h.step hstep) hrun
  have hrows : ∀ row ∈ frame.rows, row ∈ c.db.messages := by
    intro row hrow
    refine hbacked.1 n hn ▸ (hbacked.2 n hn).underway s row (Or.inl (Or.inl ?_))
    obtain ⟨o, ho, hsent⟩ := hsent
    refine List.mem_flatMap.mpr ⟨o, ho, ?_⟩
    rcases o with _ | _ | _ | _ | _ | _ | _ | _ | _ | _
    all_goals
      cases hsent
    all_goals
      exact (List.mem_ite_nil_right ..).mpr ⟨rfl, hrow⟩
  have hcursor := (written_of_run hrun hwire n hn).writes.sent s frame hsent
  have hfits := ServerFrame.fits hcursor fun row hrow ↦
    htraced.recorded.fits (seqInv_of_run hrun) hserial (hrows row hrow)
  refine ⟨ServerFrame.ofBytes_toBytes hfits, fun object hobject ↦ ?_⟩
  obtain ⟨row, hrow, hshows⟩ := ServerFrame.shows_of_mem hobject
  obtain ⟨q, R, hr, hasks, husername⟩ := asked_of_traced htraced (hrows row hrow)
  exact ⟨q, row.userId, R, row.roomId, row.username, row.content, hasks, hr, husername,
    hshows.roomId, hshows.userId, hshows.username, hshows.content⟩

/-- The message of the call is read by the client of the second node. -/
theorem read_as_asked_twoSockets :
    ∃ c, run step (start [[0x6E], [0x6F]]) (joinsTwice ++ postsOnce) = some c ∧
      ∃ frame : ServerFrame, (∃ n ∈ c.nodes, n.Sent 0 frame) ∧
        Json.ofBytes (frame.toBytes (fun _ ↦ []) fun _ ↦ []) =
          some (frame.toJson (fun _ ↦ []) fun _ ↦ []) ∧
        ∃ object ∈ messagesIn (frame.toJson (fun _ ↦ []) fun _ ↦ []),
          object.member (lit "content") = some (.string [0x68]) ∧
          ∃ q u R content, Happened step (Asks q u R content) (start [[0x6E], [0x6F]])
            (joinsTwice ++ postsOnce) ∧ toWellFormed content = [0x68] := by
  have hjoin : receivedFrame (ClientRequest.joinRoom Uuid.nil.text none).toBytes =
      some (.joinRoom ⟨⟨Uuid.nil.text, Uuid.nil.text_ne_nil⟩, none, by decide⟩) :=
    ClientRequest.receivedFrame_toBytes nofun
  have hwire : ∀ e ∈ joinsTwice ++ postsOnce, e.FromWire := by
    intro e he
    simp only [joinsTwice, postsOnce, List.flatMap_cons, List.flatMap_nil, List.cons_append,
      List.nil_append, List.append_nil, List.mem_cons, List.not_mem_nil, or_false] at he
    rcases he with rfl | rfl | rfl | rfl | rfl | rfl | rfl | rfl | rfl | rfl | rfl | rfl | rfl |
      rfl | rfl | rfl | rfl | rfl | rfl | rfl | rfl | rfl | rfl | rfl | rfl | rfl | rfl | rfl |
      rfl | rfl | rfl
    all_goals
      first
      | exact trivial
      | rintro _ _ ⟨⟩
    all_goals
      exact ⟨_, hjoin⟩
  let frame : ServerFrame := .newMessageBatch [⟨1, 1, .nil, [0x61], [0x61], [0x68], 0⟩]
  refine exists_run_of_any (fun c : Cluster ↦ c.db.nextMessageId < 2 ^ 63 ∧
    ∃ n ∈ c.nodes, n.Sent 0 frame) (by decide +kernel) ?_
  rintro c hrun ⟨hserial, n, hn, hsent⟩
  obtain ⟨hread, hobjects⟩ :=
    read_as_asked hrun hwire hserial (fun _ ↦ []) (fun _ ↦ []) n hn 0 frame hsent
  obtain ⟨q, u, R, -, -, content, hasks, -, -, -, -, -, hcontent⟩ := hobjects _ List.mem_cons_self
  refine ⟨frame, ⟨n, hn, hsent⟩, hread, _, List.mem_cons_self, ?_, q, u, R, content, hasks, ?_⟩
  · exact (shows_payload (fun _ ↦ []) _).content
  · exact (Json.string.inj (Option.some.inj hcontent)).symm.trans rfl

end Cluster

end PostgresChat
