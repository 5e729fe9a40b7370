import PostgresChat.Node.Delivery
import PostgresChat.Postgres.Tuned

/-!
# What a socket of a room receives

`carried_of_step` says that a step carries at most what it commits. While a socket receives a room
it carries all of it: the LISTEN connection is tuned in to the channel of the room, the socket is
among the sockets of the room and open, and no flush skips it. What has been committed for the room
is then what the socket has been sent and what is still on its way to it, in this order, and nothing
is lost or sent twice.

## Contents

* `Receiving`: what has to last meanwhile.
* `tuned_of_step`: the channel of a room stays tuned in as long as the room is counted.
* `Receives`: a step carries all the messages of the room that it commits.
* `Genuine`: whatever fails, what is carried are committed messages in order.
* `delivered_exactly`: every message, once, in order.
-/

namespace PostgresChat

open Execution

instance : DecidablePred (· = Event.flush)
  | .flush => isTrue rfl
  | .connect _ | .frame _ _ | .runQuery _ _ | .beginInsert _ | .insertSettles _ _ | .db _
  | .resume _ | .pg _ | .deliver _ | .immediate | .heartbeat _ | .pong _ | .socketError _
  | .socketClosing _ | .socketClose _ | .buffered _ _ | .destroyChat => isFalse Event.noConfusion

namespace Node

variable {n n' : Node} {s : SocketId} {r : Uuid} {R : RoomId} {e : Event}

/-- No command fails, the socket does not leave the room and stays open, the room stays counted, and
the socket is not over the backpressure threshold when the buffers are flushed. -/
def Receiving (s : SocketId) (R : RoomId) (n : Node) (e : Event) : Prop :=
  e.Calm ∧ e.leaves ≠ some (s, R) ∧ n.cleansUp e ≠ some s ∧ (e = .flush → n.accepts s = true) ∧
    ∀ n' ∈ n.step e, n'.isOpen s = true ∧ n'.pg.roomCount R ≠ 0

instance (s : SocketId) (R : RoomId) (n : Node) (e : Event) : Decidable (Receiving s R n e) :=
  inferInstanceAs (Decidable (_ ∧ _ ∧ _ ∧ _ ∧ ∀ n' ∈ n.step e, _))

/-! ## The channel stays tuned in -/

/-- **Step lemma.** -/
theorem tuned_of_step (h : n.pg.Tuned (getRoomNotifyChannel R)) (he : e.Calm)
    (hstep : n.step e = some n') (hcount : n'.pg.roomCount R ≠ 0) :
    n'.pg.Tuned (getRoomNotifyChannel R) := by
  -- Counts only fall by an unsubscription, so one that is not zero after it was not before.
  have hunsubscribe : ∀ (pg : PostgresService) (R' : RoomId),
      (pg.roomCount R ≠ 0 → pg.Tuned (getRoomNotifyChannel R)) →
      (pg.unsubscribeFromRoomChannel R').roomCount R ≠ 0 →
      (pg.unsubscribeFromRoomChannel R').Tuned (getRoomNotifyChannel R) := by
    intro pg R' hpg hcount'
    refine (hpg fun hzero ↦ hcount' ?_).unsubscribe R' fun hchannel ↦ ?_
    · rw [PostgresService.roomCount_unsubscribe]
      split
      · rename_i hR
        rw [← hR, hzero]
      · exact hzero
    · obtain rfl := getRoomNotifyChannel_injective hchannel
      exact hcount'
  cases stepped_of_step hstep with
  | connected => exact h
  | received s frame socket _ _ hreceived =>
    rw [hreceived.pg] at hcount ⊢
    exact pg_updateRooms (P := fun pg ↦ pg.roomCount R ≠ 0 → pg.Tuned (getRoomNotifyChannel R))
      hunsubscribe (fun _ ↦ h) _ s frame hcount
  | resumed k task stage settled _ hresumed =>
    obtain ⟨-, -, hpg, -⟩ := observeCheck_frame n k stage settled
    rw [hresumed.turned.pg, hpg] at hcount ⊢
    exact pg_afterTurn (P := fun pg ↦ pg.roomCount R ≠ 0 → pg.Tuned (getRoomNotifyChannel R))
      (fun R' _ _ ↦ h.subscribe R') (hunsubscribe n.pg) (fun _ ↦ h) task.userId _ hcount
  | marked _ s _ _ hmarked => exact hmarked.pg ▸ h
  | cleaned _ s _ _ _ hcleaned =>
    exact hcleaned.pg (fun pg ↦ pg.roomCount R ≠ 0 → pg.Tuned (getRoomNotifyChannel R))
      hunsubscribe (fun _ ↦ h) hcount
  | quiet _ _ hquiet =>
    obtain ⟨ds, hrun, hds⟩ := pg_of_quiet_step hquiet hstep
    have hcall : ∀ d ∈ ds, d.Calm ∧ ∀ R, d ≠ .subscribe R ∧ d ≠ .unsubscribe R := by
      intro d hd
      refine ⟨calm_of_passes he (hds d hd), fun R ↦ ?_⟩
      rcases hds d hd with ⟨note, rfl⟩ | ⟨c, rfl⟩ | ⟨-, hinternal⟩
      · exact ⟨nofun, nofun⟩
      · exact ⟨nofun, nofun⟩
      · constructor
        · rintro rfl
          exact Bool.noConfusion hinternal
        · rintro rfl
          exact Bool.noConfusion hinternal
    exact guarded_invariant (fun pg : PostgresService ↦ pg.Tuned (getRoomNotifyChannel R))
      (fun hpg hd hstep ↦ hpg.step hd.1 hd.2 hstep) h (guarded_of_forall _ hcall _) hrun

/-! ## What is carried -/

theorem mem_socketsOf_of_step (hin : s ∈ n.socketsOf R) (hleaves : e.leaves ≠ some (s, R))
    (hcleans : n.cleansUp e ≠ some s) (hstep : n.step e = some n') : s ∈ n'.socketsOf R := by
  have hsame : n'.roomSockets = n.roomSockets → s ∈ n'.socketsOf R := fun hrooms ↦ by
    rwa [socketsOf, hrooms]
  cases stepped_of_step hstep with
  | connected => exact hin
  | received s' frame socket _ _ hreceived =>
    rw [socketsOf, hreceived.rooms]
    rcases updateRooms_cases frame with ⟨payload, rfl⟩ | ⟨payload, rfl⟩ | hother
    · exact mem_socketsOf_updateRooms_join.mpr (Or.inr hin)
    · refine mem_socketsOf_updateRooms_leave.mpr ⟨hin, ?_⟩
      rintro ⟨rfl, rfl⟩
      exact hleaves rfl
    · rw [(hother n _ s').1]
      exact hin
  | resumed k task stage settled _ hresumed =>
    exact hsame (hresumed.turned.rooms.trans (observeCheck_frame n k stage settled).2.1)
  | marked _ s' _ _ hmarked => exact hsame hmarked.quiet.rooms
  | cleaned _ s' _ _ hs' hcleaned =>
    refine (hcleaned.rooms s R).mpr ⟨hin, ?_⟩
    rintro rfl
    exact hcleans hs'
  | quiet _ _ _ hquiet => exact hsame hquiet.rooms

theorem carried_eq (n : Node) (s : SocketId) (r : Uuid) :
    n.carried s r = ofRoom r (batchesTo n.log s) ++ ofRoom r (n.scheduled s) ++
      ofRoom r (n.buffered r.text) ++ ofRoom r n.pg.fed := by
  rw [carried, ofRoom_append, ofRoom_append, ofRoom_append]

/-- A step that commits `rows` carries those of the room behind what was carried. -/
def Receives (s : SocketId) (r : Uuid) (rows : List MessageRow) (n n' : Node) : Prop :=
  n'.carried s r = n.carried s r ++ ofRoom r rows

/-- Nothing that waits to be sent changes but what the LISTEN connection feeds. -/
theorem Receives.of_feed {rows : List MessageRow}
    (hbuffers : n'.roomMessageBatchBuffers = n.roomMessageBatchBuffers)
    (himmediates : n'.immediates = n.immediates)
    (hbatches : batchesTo n'.log s = batchesTo n.log s)
    (hfed : ofRoom r n'.pg.fed = ofRoom r n.pg.fed ++ ofRoom r rows) :
    Receives s r rows n n' := by
  have hscheduled : n'.scheduled s = n.scheduled s := by rw [scheduled, scheduled, himmediates]
  have hbuffered : n'.buffered r.text = n.buffered r.text := by rw [buffered, buffered, hbuffers]
  rw [Receives, carried_eq, carried_eq, hbatches, hscheduled, hbuffered, hfed, List.append_assoc _ _
    (ofRoom r rows)]

/-- Nothing is committed and nothing fed. -/
theorem Receives.of_same (hbuffers : n'.roomMessageBatchBuffers = n.roomMessageBatchBuffers)
    (himmediates : n'.immediates = n.immediates)
    (hbatches : batchesTo n'.log s = batchesTo n.log s) (hfed : n'.pg.fed = n.pg.fed) :
    Receives s r [] n n' :=
  .of_feed hbuffers himmediates hbatches (by rw [hfed]; exact (List.append_nil _).symm)

theorem ofRoom_eq_nil {rows : List MessageRow} (h : ∀ row ∈ rows, row.roomId ≠ r) :
    ofRoom r rows = [] :=
  List.filter_eq_nil_iff.mpr fun row hrow hr ↦ h row hrow (of_decide_eq_true hr)

theorem ofRoom_message_of_ne {note : Notification}
    (hchannel : note.channel ≠ getRoomNotifyChannel r.text) :
    ofRoom r note.message?.toList = [] := by
  rcases note with row | _ | _
  · refine ofRoom_eq_nil fun row' hrow' hr ↦ hchannel ?_
    rw [← List.mem_singleton.mp hrow', ← hr]
    rfl
  · rfl
  · rfl

/-- What is notified of the room is fed. -/
theorem fed_of_notifications {p p' : PostgresService} {notes : List Notification}
    (h : p.Tuned (getRoomNotifyChannel r.text))
    (hrun : run PostgresService.step p (notes.map PgEvent.notify) = some p') :
    ofRoom r p'.fed = ofRoom r p.fed ++ ofRoom r (notes.filterMap Notification.message?) := by
  induction notes generalizing p with
  | nil =>
    obtain rfl := Option.some.inj hrun
    exact (List.append_nil _).symm
  | cons note notes ih =>
    obtain ⟨q, hq, hrun⟩ := run_cons_eq_some.mp hrun
    have htuned := h.step (e := .notify note) trivial (fun R ↦ ⟨nofun, nofun⟩) hq
    obtain rfl := Option.some.inj hq
    have hfirst : ofRoom r (p.notify note).fed =
        ofRoom r p.fed ++ ofRoom r note.message?.toList := by
      rcases h.fed_notify note with hfed | ⟨hother, hfed⟩
      · rw [hfed, ofRoom_append]
      · rw [hfed, ofRoom_message_of_ne hother, List.append_nil]
    have hmessages : (note :: notes).filterMap Notification.message? =
        note.message?.toList ++ notes.filterMap Notification.message? := by
      rcases hmessage : note.message? with _ | row
      · exact List.filterMap_cons_none hmessage
      · exact List.filterMap_cons_some hmessage
    rw [ih htuned hrun, hfirst, hmessages, ofRoom_append r note.message?.toList, List.append_assoc]

/-- The node handles a notification. -/
theorem Receives.deliver (htuned : n.pg.Tuned (getRoomNotifyChannel r.text))
    (hwired : n.pg.OneWired) {c : ℕ} (hstep : n.step (.deliver c) = some n') :
    Receives s r [] n n' := by
  simp only [step, Option.bind_eq_bind, Option.bind_eq_some_iff] at hstep
  obtain ⟨pg, hdeliver, hstep⟩ := hstep
  have hfed := htuned.fed_deliver hwired hdeliver
  rcases hemitted : n.pg.emitted c with _ | note
  · rw [hemitted] at hstep hfed
    obtain rfl := Option.some.inj hstep
    exact .of_same rfl rfl rfl hfed
  · rw [hemitted] at hstep hfed
    obtain rfl := Option.some.inj hstep
    have hbroadcast : ∀ (R : RoomId) (frame : ServerFrame), frame.batch = [] →
        pg.fed = n.pg.fed →
        Receives s r [] n (Node.broadcastToRoom { n with pg := pg } R frame) := by
      intro R frame hframe hpg
      obtain ⟨hscheduled, hbatches, hbuffers, hpg'⟩ :=
        broadcastToRoom_carries { n with pg := pg } R frame s
      rw [hframe, ite_self, List.append_nil] at hscheduled
      rw [Receives, carried_eq, carried_eq, hscheduled, hbatches, buffered, hbuffers, hpg', hpg]
      exact (List.append_nil _).symm
    rcases note with row | row | row
    · -- The message goes from the inbox to the buffer of its room.
      have hkey : (Notification.message row).channel.drop roomChannelPrefix.length =
          row.roomId.text := drop_getRoomNotifyChannel _
      have hbuffer : ofRoom r ((({ n with pg := pg } : Node).onNotification
          (.message row)).buffered r.text) = ofRoom r (n.buffered r.text) ++ ofRoom r [row] := by
        rw [onNotification, hkey, buffered, enqueueRoomMessage, EsMap.get_set]
        by_cases hr : row.roomId = r
        · rw [if_pos (by rw [hr]), ← ofRoom_append, hr]
          rfl
        · have hother : ofRoom r [row] = [] :=
            ofRoom_eq_nil fun row' hrow' ↦ by rwa [List.mem_singleton.mp hrow']
          rw [if_neg fun htext ↦ hr (Uuid.text_injective htext).symm, hother, List.append_nil]
          rfl
      have hfirst : ofRoom r n.pg.fed = ofRoom r [row] ++ ofRoom r pg.fed := by
        rw [← ofRoom_append, ← hfed]
        rfl
      rw [Receives, carried_eq, carried_eq, hbuffer, hfirst, ← List.append_assoc,
        ← List.append_assoc]
      exact (List.append_nil _).symm
    · exact hbroadcast _ _ rfl hfed
    · exact hbroadcast _ _ rfl hfed

/-- The loop of `flushRoomMessageBatches` schedules what is in the buffers of the rooms whose open
sockets the socket is one of. -/
theorem scheduled_foldl_flushBatch (l : List (RoomId × List MessageRow)) (n : Node) (s : SocketId) :
    (l.foldl flushBatch n).scheduled s =
      n.scheduled s ++ l.flatMap fun entry ↦ if s ∈ n.openSockets entry.1 then entry.2 else [] := by
  induction l generalizing n with
  | nil => exact (List.append_nil _).symm
  | cons entry l ih =>
    have hbatch : (n.flushBatch entry).scheduled s =
          n.scheduled s ++ (if s ∈ n.openSockets entry.1 then entry.2 else []) ∧
        (n.flushBatch entry).openSockets = n.openSockets := by
      rw [flushBatch]
      split
      · rename_i hempty
        rw [hempty, ite_self, List.append_nil]
        exact ⟨rfl, rfl⟩
      · refine ⟨(broadcastToRoom_carries n entry.1 _ s).1, ?_⟩
        rw [broadcastToRoom]
        split <;> rfl
    rw [List.foldl_cons, ih, hbatch.1, hbatch.2, List.flatMap_cons, List.append_assoc]

/-- The buffers are flushed. -/
theorem Receives.flush (hkeyed : Keyed n) (hin : s ∈ n.socketsOf r.text)
    (haccepts : n.accepts s = true) (hstep : n.step .flush = some n') : Receives s r [] n n' := by
  simp only [step, Option.ite_none_right_eq_some, Option.some.injEq] at hstep
  obtain ⟨-, rfl⟩ := hstep
  obtain ⟨-, hbatches, hpg, -⟩ :=
    foldl_flushBatch_carries n.roomMessageBatchBuffers.toList { n with flushTimer := false } s
  have hopen : s ∈ n.openSockets r.text := List.mem_filter.mpr ⟨hin, haccepts⟩
  -- Only the buffer of the room itself has messages of the room.
  have hscheduled : ofRoom r ((n.roomMessageBatchBuffers.toList.foldl flushBatch
      { n with flushTimer := false }).scheduled s) =
      ofRoom r (n.scheduled s) ++ ofRoom r (n.buffered r.text) := by
    rw [scheduled_foldl_flushBatch, ofRoom_append]
    refine congrArg (ofRoom r (n.scheduled s) ++ ·) ?_
    rw [ofRoom, List.filter_flatMap, EsMap.flatMap_toList (k := r.text) fun R rows hR hmem ↦ ?_]
    · rw [buffered]
      rcases n.roomMessageBatchBuffers.get r.text with _ | rows
      · rfl
      · exact congrArg (ofRoom r) (if_pos hopen)
    · refine ofRoom_eq_nil fun row hrow hr ↦ hR ?_
      have hrow' : row ∈ rows := by
        dsimp only at hrow
        split at hrow
        · exact hrow
        · exact absurd hrow List.not_mem_nil
      rw [← hr, hkeyed R row (by rw [buffered, EsMap.get_eq_some_iff.mpr hmem]; exact hrow')]
  have hcarried : (Node.flushRoomMessageBatches { n with flushTimer := false }).carried s r =
      ofRoom r (batchesTo n.log s) ++ (ofRoom r (n.scheduled s) ++ ofRoom r (n.buffered r.text)) ++
        ofRoom r n.pg.fed := by
    rw [← hscheduled, ← congrArg PostgresService.fed hpg, ← hbatches, ← ofRoom_append,
      ← List.append_nil (batchesTo _ s ++ _), ← ofRoom_append]
    rfl
  rw [Receives, hcarried, carried_eq, ← List.append_assoc (ofRoom r (batchesTo n.log s))]
  exact (List.append_nil _).symm

/-- A callback of `setImmediate` runs. -/
theorem Receives.immediate (hdistinct : Distinct n) (hopen : n.isOpen s = true)
    (hstep : n.step .immediate = some n') : Receives s r [] n n' := by
  simp only [step] at hstep
  split at hstep
  · cases hstep
  · rename_i recipients frame rest himmediates
    obtain rfl := Option.some.inj hstep
    have hnodup : recipients.Nodup :=
      hdistinct (recipients, frame) (himmediates ▸ List.mem_cons_self)
    obtain ⟨hbatches, himmediates', hbuffers, hpg⟩ :=
      sendToAll_carries hnodup frame { n with immediates := rest } s
    have hsent : s ∈ recipients.filter (Node.isOpen { n with immediates := rest }) ↔
        s ∈ recipients := List.mem_filter.trans (and_iff_left hopen)
    have hscheduled : n.scheduled s = (if s ∈ recipients then frame.batch else []) ++
        rest.flatMap fun entry ↦ if s ∈ entry.1 then entry.2.batch else [] := by
      rw [scheduled, himmediates, List.flatMap_cons]
    rw [Receives, carried_eq, carried_eq, hbatches, if_congr hsent rfl rfl, scheduled, himmediates',
      buffered, hbuffers, hpg, hscheduled, ofRoom_append, ofRoom_append,
      List.append_assoc (ofRoom r (batchesTo n.log s))]
    exact (List.append_nil _).symm

/-- **Step lemma.** While the room is tuned in and the socket receives it, all that a step commits
for the room is carried. -/
theorem receives_of_step (htuned : n.pg.Tuned (getRoomNotifyChannel r.text))
    (hwired : n.pg.OneWired) (hkeyed : Keyed n) (hdistinct : Distinct n)
    (hin : s ∈ n.socketsOf r.text) (hopen : n.isOpen s = true) (he : Receiving s r.text n e)
    (hstep : n.step e = some n') :
    ∃ rows, n'.db.messages = n.db.messages ++ rows ∧ Receives s r rows n n' := by
  obtain ⟨hcalm, -, -, haccepts, -⟩ := he
  have hstays : n'.db = n.db → n'.db.messages = n.db.messages ++ [] := fun hdb ↦ by
    rw [hdb, List.append_nil]
  rcases hquiet : e.quiet with _ | _
  · -- A handler may call the service, and touches no buffer.
    obtain ⟨hbuffers, himmediates, hbatches⟩ := batches_of_calling_step hquiet hstep
    refine ⟨[], hstays (db_of_step (Or.inl hquiet) hstep), .of_same hbuffers himmediates
      (hbatches s) ?_⟩
    exact pg_of_calling_step (P := fun pg ↦ pg.fed = n.pg.fed) hquiet
      (fun pg R hfed ↦ (PostgresService.fed_subscribe pg R).trans hfed)
      (fun pg R hfed ↦ (PostgresService.fed_unsubscribe pg R).trans hfed) rfl hstep
  · rcases hmoves : e.moves with _ | _
    · rcases stores_of_quiet_step hquiet hmoves hstep with hsame | ⟨d, db, notes, happly, hsame⟩
      · exact ⟨[], hstays hsame.db, .of_same hsame.buffers hsame.immediates
          (by rw [hsame.log]) (by rw [hsame.pg])⟩
      · -- A statement: what it inserts is notified, and joins the feed of the tuned client.
        obtain ⟨hdb, hbuffers, himmediates⟩ := withDb_frame n db notes
        obtain ⟨os, hlog, hos, -⟩ := log_withDb n db notes
        refine ⟨notes.filterMap Notification.message?, ?_, .of_feed (hsame.buffers.trans hbuffers)
          (hsame.immediates.trans himmediates) ?_ ?_⟩
        · rw [hsame.db, hdb]
          exact Db.messages_of_apply happly
        · rw [hsame.log, hlog]
          refine batchesTo_append fun o ho ↦ ?_
          obtain ⟨c, note, rfl⟩ := hos o ho
          rfl
        · rw [hsame.pg]
          exact fed_of_notifications htuned (pg_withDb n db notes)
    · refine ⟨[], hstays (db_of_step (Or.inr hmoves) hstep), ?_⟩
      cases e with
      | pg d =>
        simp only [step, Option.bind_eq_bind, Option.bind_eq_some_iff,
          Option.guard_eq_some'] at hstep
        obtain ⟨-, hinternal, pg, hd, hstep⟩ := hstep
        obtain rfl := Option.some.inj hstep
        -- Calm as it is, the connection loses nothing of its feed.
        have hfed : pg.fed = n.pg.fed := by
          refine PostgresService.fed_of_calm_step hcalm ?_ ?_ hd
          · rintro note rfl
            exact Bool.noConfusion hinternal
          · rintro c rfl
            exact Bool.noConfusion hinternal
        refine .of_same rfl rfl (batchesTo_append fun o ho ↦ ?_) hfed
        rw [PgEvent.observation.eq_def] at ho
        split at ho
        · obtain ⟨cmd, -, rfl⟩ := Option.map_eq_some_iff.mp (Option.mem_toList.mp ho)
          rfl
        · exact absurd ho List.not_mem_nil
      | deliver c => exact .deliver htuned hwired hstep
      | flush => exact .flush hkeyed hin (haccepts rfl) hstep
      | immediate => exact .immediate hdistinct hopen hstep
      | _ => exact Bool.noConfusion hmoves

/-! ## Whatever fails -/

/-- What is carried are committed messages of the room, in the order of their commits. -/
structure Genuine (n : Node) : Prop where
  inOrder : InOrder n
  sublist : ∀ s r, List.Sublist (n.carried s r) (n.db.messagesOf r)

/-- **Step lemma.** -/
theorem Genuine.step (h : Genuine n) (he : n.FailsFast e) (hstep : n.step e = some n') :
    Genuine n' := by
  obtain ⟨rows, hrows, hcarries⟩ := carried_of_step h.inOrder.oneWired h.inOrder.keyed
    h.inOrder.distinct hstep
  refine ⟨h.inOrder.step he hstep, fun s r ↦ (hcarries.stream s r).trans ?_⟩
  rw [Db.messagesOf, hrows, List.filter_append]
  exact (h.sublist s r).append (List.Sublist.refl _)

theorem genuine_start (nodeId : JsString) : Genuine (start nodeId) :=
  ⟨inOrder_start nodeId, fun _ _ ↦ List.Sublist.refl _⟩

theorem Genuine.batches (h : Genuine n) (s : SocketId) (r : Uuid) :
    List.Sublist (ofRoom r (batchesTo n.log s)) (n.db.messagesOf r) := by
  refine List.Sublist.trans ?_ (h.sublist s r)
  rw [carried_eq, List.append_assoc, List.append_assoc]
  exact List.sublist_append_left _ _

/-! ## While nothing fails -/

/-- The invariant: the socket receives the room, and has been carried all that was committed for it
since `m`. -/
structure Caught (m : Node) (s : SocketId) (r : Uuid) (n : Node) : Prop where
  tuned : n.pg.Tuned (getRoomNotifyChannel r.text)
  inRoom : s ∈ n.socketsOf r.text
  opened : n.isOpen s = true
  inOrder : InOrder n
  exact : ∃ rows, n.db.messagesOf r = m.db.messagesOf r ++ rows ∧
    n.carried s r = m.carried s r ++ rows

theorem failsFast_of_calm (he : e.Calm) : n.FailsFast e := by
  cases e with
  | pg d =>
    cases d with
    | reconnectTimerFires => exact he.elim
    | _ => trivial
  | _ => trivial

theorem Caught.step {m : Node} (h : Caught m s r n) (he : Receiving s r.text n e)
    (hstep : n.step e = some n') : Caught m s r n' := by
  obtain ⟨hcalm, hleaves, hcleans, -, hafter⟩ := id he
  obtain ⟨hopen, hcount⟩ := hafter n' hstep
  obtain ⟨rows, hrows, hreceives⟩ := receives_of_step h.tuned h.inOrder.oneWired h.inOrder.keyed
    h.inOrder.distinct h.inRoom h.opened he hstep
  obtain ⟨rows₀, hrows₀, hcarried₀⟩ := h.exact
  refine ⟨tuned_of_step h.tuned hcalm hstep hcount,
    mem_socketsOf_of_step h.inRoom hleaves hcleans hstep, hopen,
    h.inOrder.step (failsFast_of_calm hcalm) hstep, rows₀ ++ ofRoom r rows, ?_, ?_⟩
  · rw [Db.messagesOf, hrows, List.filter_append, ← List.append_assoc, ← hrows₀]
    rfl
  · rw [hreceives, hcarried₀, List.append_assoc]

/-- What holds at first is that nothing has been committed since. -/
theorem caught_self (htuned : n.pg.Tuned (getRoomNotifyChannel r.text))
    (hin : s ∈ n.socketsOf r.text) (hopen : n.isOpen s = true) (hinOrder : InOrder n) :
    Caught n s r n :=
  ⟨htuned, hin, hopen, hinOrder, [], (List.append_nil _).symm, (List.append_nil _).symm⟩

/-- **Every message, once, in order.** Let a socket be open and in a room whose channel is tuned in,
in a state that any run has led to in which no attempt to reconnect outlived its client. As long as
the socket receives the room from then on, the messages of the room that it has been sent in batches
and those on their way to it are what they were, followed by the messages committed since; and when
nothing is on its way to it any more it has been sent them all. -/
theorem delivered_exactly {nodeId : JsString} {es₁ es₂ : List Event} {m : Node}
    (hbefore : run step (start nodeId) es₁ = some m)
    (hfails : Guarded step FailsFast (start nodeId) es₁) (hin : s ∈ m.socketsOf r.text)
    (hopen : m.isOpen s = true) (htuned : m.pg.Tuned (getRoomNotifyChannel r.text))
    (hafter : run step m es₂ = some n) (hreceiving : Guarded step (Receiving s r.text) m es₂) :
    ∃ rows, n.db.messagesOf r = m.db.messagesOf r ++ rows ∧
      n.carried s r = m.carried s r ++ rows ∧
      (n.scheduled s = [] ∧ n.buffered r.text = [] ∧ n.pg.fed = [] →
        ofRoom r (batchesTo n.log s) = m.carried s r ++ rows) := by
  have hinOrder : InOrder m := guarded_invariant InOrder
    (fun hinv he hstep ↦ hinv.step he hstep) (inOrder_start nodeId) hfails hbefore
  obtain ⟨rows, hrows, hcarried⟩ := (guarded_invariant (Caught m s r)
    (fun hinv he hstep ↦ hinv.step he hstep) (caught_self htuned hin hopen hinOrder) hreceiving
    hafter).exact
  refine ⟨rows, hrows, hcarried, fun ⟨hscheduled, hbuffered, hfed⟩ ↦ ?_⟩
  rw [← hcarried, carried, hscheduled, hbuffered, hfed, List.append_nil, List.append_nil,
    List.append_nil]

/-- A message is committed and sent, and the next one is on its way. -/
def oneSentOneFed : List Event :=
  [.db (.beginInsert .nil [0x61] [0x62]), .db (.assignSequence 0), .db (.setUsername 0),
    .db (.store 0), .db (.commit 0), .deliver 0, .flush, .immediate,
    .db (.beginInsert .nil [0x61] [0x63]), .db (.assignSequence 1), .db (.setUsername 1),
    .db (.store 1), .db (.commit 1)]

theorem delivered_exactly_twoMessages :
    ∃ m, run step (start []) [.db (.createUser [0x61] [0x61]), .db (.createRoom .nil),
        .db (.query (.insertMember Uuid.nil.text [0x61])), .connect [0x61],
        .frame 0 (.joinRoom ⟨⟨Uuid.nil.text, by decide⟩, none, by decide⟩), .runQuery 0 .answered,
        .resume 0, .pg (.execCommand 0 true), .pg (.resumeCall 0), .resume 0] = some m ∧
      ∃ n rows, run step m oneSentOneFed = some n ∧ n.db.messagesOf .nil = rows ∧
        n.carried 0 .nil = rows ∧ rows.length = 2 := by
  refine exists_run_of_any (fun m : Node ↦ 0 ∈ m.socketsOf Uuid.nil.text ∧ m.isOpen 0 = true ∧
    m.pg.Tuned (getRoomNotifyChannel Uuid.nil.text) ∧ m.db.messagesOf .nil = [] ∧
    m.carried 0 .nil = [] ∧ Guarded step (Receiving 0 Uuid.nil.text) m oneSentOneFed ∧
    (run step m oneSentOneFed).any (fun n ↦ decide ((n.db.messagesOf .nil).length = 2)) = true)
    (by decide) ?_
  rintro m hbefore ⟨hin, hopen, htuned, hnone, hnothing, hreceiving, hafter⟩
  obtain ⟨n, hafter, hlength⟩ := (Option.any_eq_true _ _).mp hafter
  obtain ⟨rows, hrows, hcarried, -⟩ :=
    delivered_exactly hbefore (by decide) hin hopen htuned hafter hreceiving
  rw [hnone, List.nil_append] at hrows
  rw [hnothing, List.nil_append] at hcarried
  exact ⟨n, rows, hafter, hrows, hcarried, hrows ▸ of_decide_eq_true hlength⟩

end Node

end PostgresChat
