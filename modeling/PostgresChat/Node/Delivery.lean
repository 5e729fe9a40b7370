import PostgresChat.Node.Calm
import PostgresChat.Postgres.Feed

/-!
# The order of live delivery

A message is committed with the next number of its room, notified in commit order, put into the
buffer of its room, taken out of it as part of a batch, and sent. For one socket and one room the
messages that are somewhere on this way form one list (`carried`): what has been sent, what
`setImmediate` is about to send, what is in the buffer, and what is in the inbox of the LISTEN
connection, in this order. A step appends to this list what it commits, drops messages from it, or
moves the boundaries between its parts (`carried_of_step`). So numbers that are increasing stay
increasing, and what has been sent is the beginning of the list.

That there is one inbox to take messages from is what `OneWired` says of the LISTEN connection.
-/

namespace PostgresChat

open Execution

/-! ## What is sent -/

/-- The messages of a batch. -/
def ServerFrame.batch : ServerFrame → List MessageRow
  | .newMessageBatch messages => messages
  | .error .. | .history .. | .joinedRoom _ | .presence _ | .typing _ => []

/-- The messages a socket is sent in a batch. -/
def Observation.batchTo (s : SocketId) : Observation → List MessageRow
  | .delivered s' frame => if s' = s then frame.batch else []
  | _ => []

namespace Node

/-- The messages a socket has been sent in batches. -/
def batchesTo (log : List Observation) (s : SocketId) : List MessageRow :=
  log.flatMap (Observation.batchTo s)

/-- The messages of a room among `rows`. -/
def ofRoom (r : Uuid) (rows : List MessageRow) : List MessageRow :=
  rows.filter fun row ↦ row.roomId = r

/-- The `seq` values of the messages of a room in the `new_message_batch` frames sent to a socket.
-/
def liveSeqs (log : List Observation) (s : SocketId) (r : Uuid) : List ℕ :=
  (ofRoom r (batchesTo log s)).map MessageRow.seq

/-- When the reconnect timer of the LISTEN connection fires, no attempt still works on a client that
has emitted an error. -/
def FailsFast (n : Node) : Event → Prop
  | .pg d => n.pg.FailsFast d
  | _ => True

instance (n : Node) : (e : Event) → Decidable (n.FailsFast e)
  | .pg d => inferInstanceAs (Decidable (n.pg.FailsFast d))
  | .connect _ | .frame .. | .runQuery .. | .beginInsert _ | .insertSettles .. | .db _ | .resume _
  | .deliver _ | .flush | .immediate | .heartbeat _ | .pong _ | .socketError _ | .socketClosing _
  | .socketClose _ | .buffered .. | .destroyChat => isTrue trivial

/-! ## What is carried -/

/-- What `setImmediate` is about to send to a socket. -/
def scheduled (n : Node) (s : SocketId) : List MessageRow :=
  n.immediates.flatMap fun entry ↦ if s ∈ entry.1 then entry.2.batch else []

/-- The buffer of a room. -/
def buffered (n : Node) (R : RoomId) : List MessageRow := (n.roomMessageBatchBuffers.get R).getD []

/-- The messages of a room on their way to a socket, the first one first. -/
def carried (n : Node) (s : SocketId) (r : Uuid) : List MessageRow :=
  ofRoom r (batchesTo n.log s ++ n.scheduled s ++ n.buffered r.text ++ n.pg.fed)

variable {n n' : Node} {s : SocketId} {r : Uuid} {rows rows' : List MessageRow}

theorem ofRoom_append (r : Uuid) (rows rows' : List MessageRow) :
    ofRoom r (rows ++ rows') = ofRoom r rows ++ ofRoom r rows' := List.filter_append _ _

theorem ofRoom_sublist (h : List.Sublist rows rows') :
    List.Sublist (ofRoom r rows) (ofRoom r rows') := h.filter _

theorem batchesTo_append {log os : List Observation} (hos : ∀ o ∈ os, o.batchTo s = []) :
    batchesTo (log ++ os) s = batchesTo log s := by
  rw [batchesTo, List.flatMap_append, List.flatMap_eq_nil_iff.mpr hos, List.append_nil]
  rfl

/-! ## Broadcasts -/

/-- A broadcast schedules its batch for the sockets it has chosen. -/
theorem broadcastToRoom_carries (n : Node) (R : RoomId) (frame : ServerFrame) (s : SocketId) :
    (n.broadcastToRoom R frame).scheduled s =
        n.scheduled s ++ (if s ∈ n.openSockets R then frame.batch else []) ∧
      batchesTo (n.broadcastToRoom R frame).log s = batchesTo n.log s ∧
      (n.broadcastToRoom R frame).roomMessageBatchBuffers = n.roomMessageBatchBuffers ∧
      (n.broadcastToRoom R frame).pg = n.pg := by
  rw [broadcastToRoom]
  split
  · rename_i hnone
    rw [hnone, if_neg List.not_mem_nil, List.append_nil]
    exact ⟨rfl, rfl, rfl, rfl⟩
  · refine ⟨?_, batchesTo_append fun o ho ↦ ?_, rfl, rfl⟩
    · rw [scheduled, List.flatMap_append, List.flatMap_singleton]
      rfl
    · rw [List.mem_singleton.mp ho]
      rfl

theorem openSockets_nodup (n : Node) (R : RoomId) : (n.openSockets R).Nodup :=
  (n.socketsOf R).nodup.filter _

/-- No callback of `setImmediate` sends to a socket twice. -/
def Distinct (n : Node) : Prop := ∀ entry ∈ n.immediates, entry.1.Nodup

theorem Distinct.broadcastToRoom (h : Distinct n) (R : RoomId) (frame : ServerFrame) :
    Distinct (n.broadcastToRoom R frame) := by
  rw [Node.broadcastToRoom]
  split
  · exact h
  · intro entry hentry
    rcases List.mem_append.mp hentry with hentry | hentry
    · exact h entry hentry
    · rw [List.mem_singleton.mp hentry]
      exact openSockets_nodup n R

/-- The loop of `flushRoomMessageBatches` over some buffers. -/
theorem foldl_flushBatch_carries (l : List (RoomId × List MessageRow)) (n : Node) (s : SocketId) :
    List.Sublist ((l.foldl flushBatch n).scheduled s)
        (n.scheduled s ++ l.flatMap fun entry ↦ entry.2) ∧
      batchesTo (l.foldl flushBatch n).log s = batchesTo n.log s ∧
      (l.foldl flushBatch n).pg = n.pg ∧ (Distinct n → Distinct (l.foldl flushBatch n)) := by
  induction l generalizing n with
  | nil => exact ⟨List.sublist_append_left _ _, rfl, rfl, id⟩
  | cons entry l ih =>
    obtain ⟨hscheduled, hbatches, hpg, hdistinct⟩ := ih (n.flushBatch entry)
    have hflush : List.Sublist ((n.flushBatch entry).scheduled s) (n.scheduled s ++ entry.2) ∧
        batchesTo (n.flushBatch entry).log s = batchesTo n.log s ∧
        (n.flushBatch entry).pg = n.pg ∧ (Distinct n → Distinct (n.flushBatch entry)) := by
      rw [flushBatch]
      split
      · exact ⟨List.sublist_append_left _ _, rfl, rfl, id⟩
      · obtain ⟨hscheduled, hbatches, -, hpg⟩ :=
          broadcastToRoom_carries n entry.1 (.newMessageBatch entry.2) s
        refine ⟨?_, hbatches, hpg, fun h ↦ h.broadcastToRoom _ _⟩
        rw [hscheduled]
        refine (List.Sublist.refl _).append ?_
        split
        · exact List.Sublist.refl _
        · exact List.nil_sublist _
    refine ⟨?_, hbatches.trans hflush.2.1, hpg.trans hflush.2.2.1,
      fun h ↦ hdistinct (hflush.2.2.2 h)⟩
    rw [List.flatMap_cons, ← List.append_assoc]
    exact hscheduled.trans (hflush.1.append (List.Sublist.refl _))

/-- What a callback of `setImmediate` sends to a socket, if the socket is open. -/
theorem sendToAll_carries {recipients : List SocketId} (hnodup : recipients.Nodup)
    (frame : ServerFrame) (n : Node) (s : SocketId) :
    batchesTo (n.sendToAll recipients frame).log s =
        batchesTo n.log s ++ (if s ∈ recipients.filter n.isOpen then frame.batch else []) ∧
      (n.sendToAll recipients frame).immediates = n.immediates ∧
      (n.sendToAll recipients frame).roomMessageBatchBuffers = n.roomMessageBatchBuffers ∧
      (n.sendToAll recipients frame).pg = n.pg := by
  induction recipients generalizing n with
  | nil => exact ⟨(List.append_nil _).symm, rfl, rfl, rfl⟩
  | cons s' recipients ih =>
    obtain ⟨hs', hnodup⟩ := List.nodup_cons.mp hnodup
    obtain ⟨hbatches, himmediates, hbuffers, hpg⟩ := ih hnodup (n.send s' (.delivered s' frame))
    have hsend : batchesTo (n.send s' (.delivered s' frame)).log s =
          batchesTo n.log s ++ (if s' = s ∧ n.isOpen s = true then frame.batch else []) ∧
        (n.send s' (.delivered s' frame)).immediates = n.immediates ∧
        (n.send s' (.delivered s' frame)).roomMessageBatchBuffers = n.roomMessageBatchBuffers ∧
        (n.send s' (.delivered s' frame)).pg = n.pg ∧
        (n.send s' (.delivered s' frame)).isOpen = n.isOpen := by
      rw [Node.send]
      split
      · rename_i hopen
        refine ⟨?_, rfl, rfl, rfl, rfl⟩
        change batchesTo (n.log ++ [_]) s = _
        rw [batchesTo, List.flatMap_append, List.flatMap_singleton, Observation.batchTo]
        refine congrArg _ (if_congr ?_ rfl rfl)
        exact ⟨fun h ↦ ⟨h, h ▸ hopen⟩, And.left⟩
      · rename_i hclosed
        refine ⟨?_, rfl, rfl, rfl, rfl⟩
        rw [if_neg, List.append_nil]
        rintro ⟨rfl, hopen⟩
        exact hclosed hopen
    refine ⟨?_, himmediates.trans hsend.2.1, hbuffers.trans hsend.2.2.1,
      hpg.trans hsend.2.2.2.1⟩
    change batchesTo ((n.send s' (.delivered s' frame)).sendToAll recipients frame).log s = _
    rw [hbatches, hsend.1, hsend.2.2.2.2, List.append_assoc]
    refine congrArg _ ?_
    simp only [List.mem_filter, List.mem_cons]
    by_cases heq : s' = s
    · subst heq
      simp only [hs', true_and, true_or, false_and, if_false, List.append_nil]
    · rw [if_neg (fun h ↦ heq h.1), List.nil_append]
      exact if_congr (and_congr_left fun _ ↦ (or_iff_right fun h ↦ heq h.symm).symm) rfl rfl

/-! ## Steps -/

/-- A step that is not quiet sends no batch, and changes nothing that waits to be sent. -/
theorem batches_of_calling_step {e : Event} (he : e.quiet = false) (hstep : n.step e = some n') :
    n'.roomMessageBatchBuffers = n.roomMessageBatchBuffers ∧ n'.immediates = n.immediates ∧
      ∀ s, batchesTo n'.log s = batchesTo n.log s := by
  cases stepped_of_step hstep with
  | connected => exact ⟨rfl, rfl, fun _ ↦ rfl⟩
  | received s frame socket _ _ hreceived =>
    obtain ⟨os, hlog, hos⟩ := hreceived.log_cases
    refine ⟨hreceived.buffers, hreceived.immediates, fun _ ↦ ?_⟩
    rw [hlog]
    refine batchesTo_append fun o ho ↦ ?_
    rcases hos o ho with ⟨payload, -, rfl⟩ | ⟨payload, -, rfl⟩ | ⟨error, -, rfl⟩ <;> rfl
  | resumed k task stage settled _ hresumed =>
    obtain ⟨hsame, -⟩ := observeCheck_frame n k stage settled
    obtain ⟨os, hlog, hos⟩ := hresumed.log
    refine ⟨hresumed.turned.buffers.trans hsame.buffers,
      hresumed.turned.immediates.trans hsame.immediates, fun _ ↦ ?_⟩
    rw [hlog]
    refine batchesTo_append fun o ho ↦ ?_
    rcases hos o ho with rfl | ⟨send, -, rfl⟩ <;> rfl
  | marked _ s _ _ hmarked =>
    exact ⟨hmarked.buffers, hmarked.immediates, fun _ ↦ by rw [hmarked.log]⟩
  | cleaned _ s _ _ _ hcleaned =>
    obtain ⟨os, hlog, hos⟩ := hcleaned.log_cases
    refine ⟨hcleaned.same.2.2.1, hcleaned.same.2.2.2, fun _ ↦ ?_⟩
    rw [hlog]
    refine batchesTo_append fun o ho ↦ ?_
    rcases hos o ho with rfl | rfl <;> rfl
  | quiet _ _ hquiet => cases he.symm.trans hquiet

/-- A buffer holds messages of its own room only. -/
def Keyed (n : Node) : Prop :=
  ∀ R, ∀ row ∈ n.buffered R, row.roomId.text = R

/-- A step that commits `rows` carries them behind what was carried. -/
structure Carries (rows : List MessageRow) (n n' : Node) : Prop where
  keyed : Keyed n → Keyed n'
  distinct : Distinct n → Distinct n'
  stream : ∀ s r, List.Sublist (n'.carried s r) (n.carried s r ++ ofRoom r rows)

/-- Nothing that waits to be sent changes but what the LISTEN connection feeds. -/
theorem Carries.of_feed (hbuffers : n'.roomMessageBatchBuffers = n.roomMessageBatchBuffers)
    (himmediates : n'.immediates = n.immediates)
    (hbatches : ∀ s, batchesTo n'.log s = batchesTo n.log s)
    (hfed : List.Sublist n'.pg.fed (n.pg.fed ++ rows)) : Carries rows n n' := by
  have hbuffered : ∀ R, n'.buffered R = n.buffered R := fun R ↦ by
    rw [buffered, buffered, hbuffers]
  refine ⟨fun h R ↦ by rw [hbuffered]; exact h R, fun h ↦ by rw [Distinct, himmediates]; exact h,
    fun s r ↦ ?_⟩
  have hscheduled : n'.scheduled s = n.scheduled s := by rw [scheduled, scheduled, himmediates]
  rw [carried, carried, hbatches, hscheduled, hbuffered, ← ofRoom_append]
  refine ofRoom_sublist ?_
  rw [List.append_assoc _ n.pg.fed]
  exact (List.Sublist.refl _).append hfed

theorem fed_of_notify {p p' : PostgresService} (h : p.OneWired) {notes : List Notification}
    (hrun : run PostgresService.step p (notes.map PgEvent.notify) = some p') :
    List.Sublist p'.fed (p.fed ++ notes.filterMap Notification.message?) := by
  induction notes generalizing p with
  | nil =>
    cases hrun
    exact List.sublist_append_left _ _
  | cons note notes ih =>
    obtain ⟨q, hq, hrun⟩ := run_cons_eq_some.mp hrun
    have hrest := ih (h.step (e := .notify note) trivial hq) hrun
    refine hrest.trans ?_
    have hfirst := (h.fed_of_step hq).append
      (List.Sublist.refl (notes.filterMap Notification.message?))
    rw [List.append_assoc] at hfirst
    refine hfirst.trans ((List.Sublist.refl _).append ?_)
    rw [PgEvent.message?]
    cases hmessage : note.message? with
    | none =>
      rw [List.filterMap_cons_none hmessage]
      exact List.Sublist.refl _
    | some row =>
      rw [List.filterMap_cons_some hmessage]
      exact List.Sublist.refl _

/-- The node handles a notification. -/
theorem Carries.deliver (hpg : n.pg.OneWired) {c : ℕ} (hstep : n.step (.deliver c) = some n') :
    Carries [] n n' := by
  simp only [step, Option.bind_eq_bind, Option.bind_eq_some_iff] at hstep
  obtain ⟨pg, hdeliver, hstep⟩ := hstep
  have hfed := hpg.fed_deliver hdeliver
  have hdropped : List.Sublist pg.fed (n.pg.fed ++ []) := by
    rw [List.append_nil]
    exact (List.sublist_append_right _ _).trans hfed
  split at hstep
  · rename_i note hnote
    cases hstep
    -- Presence and typing go out at once, past the buffers.
    have hbroadcast : ∀ (R : RoomId) (frame : ServerFrame), frame.batch = [] →
        Carries [] n (Node.broadcastToRoom { n with pg := pg } R frame) := by
      intro R frame hframe
      refine ⟨fun h R' ↦ ?_, fun h ↦ ?_, fun s r ↦ ?_⟩
      · obtain ⟨-, -, hbuffers, -⟩ := broadcastToRoom_carries { n with pg := pg } R frame 0
        rw [buffered, hbuffers]
        exact h R'
      · exact Distinct.broadcastToRoom (n := { n with pg := pg }) h R frame
      · obtain ⟨hscheduled, hbatches, hbuffers, hpg'⟩ :=
          broadcastToRoom_carries { n with pg := pg } R frame s
        rw [hframe, ite_self, List.append_nil] at hscheduled
        rw [carried, hscheduled, hbatches, buffered, hbuffers, hpg', carried, ← ofRoom_append]
        refine ofRoom_sublist ?_
        rw [List.append_assoc _ _ []]
        exact (List.Sublist.refl _).append hdropped
    cases note with
    | message row =>
      have hkey : (Notification.message row).channel.drop roomChannelPrefix.length =
          row.roomId.text := drop_getRoomNotifyChannel _
      rw [hnote] at hfed
      change List.Sublist (row :: pg.fed) n.pg.fed at hfed
      -- A message goes from the head of the feed to the end of the buffer of its room.
      have hbuffered : ∀ R,
          (({ n with pg := pg } : Node).onNotification (.message row)).buffered R =
            if R = row.roomId.text then n.buffered R ++ [row] else n.buffered R := by
        intro R
        rw [onNotification, hkey, buffered, enqueueRoomMessage, EsMap.get_set]
        split
        · rename_i hR
          rw [hR]
          rfl
        · rfl
      refine ⟨fun h R row' hrow' ↦ ?_, id, fun s r ↦ ?_⟩
      · rw [hbuffered] at hrow'
        split at hrow'
        · rename_i hR
          rcases List.mem_append.mp hrow' with hrow' | hrow'
          · exact h R row' hrow'
          · rw [List.mem_singleton.mp hrow', hR]
        · exact h R row' hrow'
      · rw [carried, hbuffered, carried, ← ofRoom_append]
        refine ofRoom_sublist ?_
        rw [List.append_nil]
        split
        · rw [← List.append_assoc _ (n.buffered r.text) [row], List.append_assoc _ [row]]
          exact (List.Sublist.refl _).append hfed
        · exact (List.Sublist.refl _).append ((List.sublist_cons_self row pg.fed).trans hfed)
    | presence row => exact hbroadcast _ _ rfl
    | typing row => exact hbroadcast _ _ rfl
  · cases hstep
    exact Carries.of_feed rfl rfl (fun _ ↦ rfl) hdropped

/-- The buffers are flushed. -/
theorem Carries.flush (hkeyed : Keyed n) (hstep : n.step .flush = some n') : Carries [] n n' := by
  simp only [step, Option.ite_none_right_eq_some, Option.some.injEq] at hstep
  obtain ⟨-, rfl⟩ := hstep
  refine ⟨fun _ R ↦ (by rintro _ ⟨⟩), fun h ↦ ?_, fun s r ↦ ?_⟩
  · exact (foldl_flushBatch_carries _ { n with flushTimer := false } 0).2.2.2 h
  · obtain ⟨hscheduled, hbatches, hpg, -⟩ :=
      foldl_flushBatch_carries n.roomMessageBatchBuffers.toList { n with flushTimer := false } s
    -- Only the buffer of the room itself has messages of the room.
    have hbuffer : ofRoom r (n.roomMessageBatchBuffers.toList.flatMap fun entry ↦ entry.2) =
        ofRoom r (n.buffered r.text) := by
      rw [ofRoom, List.filter_flatMap]
      refine (EsMap.flatMap_toList (k := r.text) fun R rows hR hmem ↦ ?_).trans ?_
      · rw [List.filter_eq_nil_iff]
        intro row hrow
        rw [decide_eq_true_iff]
        rintro rfl
        refine hR (hkeyed R row ?_).symm
        rw [buffered, EsMap.get_eq_some_iff.mpr hmem]
        exact hrow
      · rw [buffered]
        cases n.roomMessageBatchBuffers.get r.text <;> rfl
    have hcarried : (Node.flushRoomMessageBatches { n with flushTimer := false }).carried s r =
        ofRoom r (batchesTo n.log s) ++ ofRoom r ((n.roomMessageBatchBuffers.toList.foldl flushBatch
          { n with flushTimer := false }).scheduled s) ++ ofRoom r n.pg.fed := by
      rw [← ofRoom_append, ← ofRoom_append, ← congrArg PostgresService.fed hpg, ← hbatches,
        ← List.append_nil (batchesTo _ s ++ _)]
      rfl
    rw [hcarried, carried, ofRoom_append, ofRoom_append, ofRoom_append, ← hbuffer,
      List.append_assoc _ (ofRoom r (n.scheduled s)), ← ofRoom_append r (n.scheduled s)]
    exact (((List.Sublist.refl _).append (ofRoom_sublist hscheduled)).append
      (List.Sublist.refl _)).trans (List.sublist_append_left _ _)

/-- A callback of `setImmediate` runs. -/
theorem Carries.immediate (hdistinct : Distinct n) (hstep : n.step .immediate = some n') :
    Carries [] n n' := by
  simp only [step] at hstep
  split at hstep
  · cases hstep
  · rename_i recipients frame rest himmediates
    cases hstep
    have hnodup : recipients.Nodup := hdistinct (recipients, frame) (by
      rw [himmediates]
      exact List.mem_cons_self)
    have hsend := sendToAll_carries hnodup frame { n with immediates := rest }
    refine ⟨fun h R row hrow ↦ ?_, fun h entry hentry ↦ ?_, fun s r ↦ ?_⟩
    · obtain ⟨-, -, hbuffers, -⟩ := hsend 0
      rw [buffered, hbuffers] at hrow
      exact h R row hrow
    · obtain ⟨-, himmediates', -, -⟩ := hsend 0
      rw [himmediates'] at hentry
      exact h entry (himmediates ▸ List.mem_cons_of_mem _ hentry)
    · obtain ⟨hbatches, himmediates', hbuffers, hpg⟩ := hsend s
      have hscheduled : n.scheduled s =
          (if s ∈ recipients then frame.batch else []) ++
            rest.flatMap fun entry ↦ if s ∈ entry.1 then entry.2.batch else [] := by
        rw [scheduled, himmediates, List.flatMap_cons]
      rw [carried, carried, ← ofRoom_append, scheduled, himmediates', buffered, hbuffers, hpg,
        hscheduled, List.append_nil, ← List.append_assoc (batchesTo n.log s)]
      have hsent : List.Sublist (batchesTo (Node.sendToAll { n with immediates := rest } recipients
          frame).log s) (batchesTo n.log s ++ if s ∈ recipients then frame.batch else []) := by
        rw [hbatches]
        refine (List.Sublist.refl _).append ?_
        split
        · rename_i hmem
          rw [if_pos (List.mem_filter.mp hmem).1]
        · exact List.nil_sublist _
      exact ofRoom_sublist (((hsent.append (List.Sublist.refl _)).append
        (List.Sublist.refl _)).append (List.Sublist.refl _))

/-- **What a step carries.** What it commits comes behind what is on its way already. -/
theorem carried_of_step (hpg : n.pg.OneWired) (hkeyed : Keyed n) (hdistinct : Distinct n)
    {e : Event} (hstep : n.step e = some n') :
    ∃ rows, n'.db.messages = n.db.messages ++ rows ∧ Carries rows n n' := by
  have hmoves : e.moves = true → n'.db.messages = n.db.messages ++ [] := fun he ↦ by
    rw [db_of_step (Or.inr he) hstep, List.append_nil]
  cases hquiet : e.quiet with
  | false =>
    -- A handler may call the service, and touches no buffer.
    obtain ⟨hbuffers, himmediates, hbatches⟩ := batches_of_calling_step hquiet hstep
    refine ⟨[], by rw [db_of_step (Or.inl hquiet) hstep, List.append_nil],
      Carries.of_feed hbuffers himmediates hbatches ?_⟩
    rw [List.append_nil]
    exact pg_of_calling_step (P := fun pg ↦ List.Sublist pg.fed n.pg.fed) hquiet
      (fun pg R h ↦ by rw [PostgresService.fed_subscribe]; exact h)
      (fun pg R h ↦ by rw [PostgresService.fed_unsubscribe]; exact h) (List.Sublist.refl _) hstep
  | true =>
    cases hmoving : e.moves with
    | false =>
      rcases stores_of_quiet_step hquiet hmoving hstep with hsame | ⟨d, db, notes, happly, hsame⟩
      · refine ⟨[], by rw [hsame.db, List.append_nil], Carries.of_feed hsame.buffers
          hsame.immediates (fun _ ↦ by rw [hsame.log]) ?_⟩
        rw [hsame.pg]
        exact List.sublist_append_left _ _
      · -- A statement: what it inserts is what it notifies.
        obtain ⟨hdb, hbuffers, himmediates⟩ := withDb_frame n db notes
        obtain ⟨os, hlog, hos, -⟩ := log_withDb n db notes
        refine ⟨notes.filterMap Notification.message?, ?_, Carries.of_feed
          (hsame.buffers.trans hbuffers) (hsame.immediates.trans himmediates) (fun s ↦ ?_) ?_⟩
        · rw [hsame.db, hdb]
          exact Db.messages_of_apply happly
        · rw [hsame.log, hlog]
          refine batchesTo_append fun o ho ↦ ?_
          obtain ⟨c, note, rfl⟩ := hos o ho
          rfl
        · rw [hsame.pg]
          exact fed_of_notify hpg (pg_withDb n db notes)
    | true =>
      refine ⟨[], hmoves hmoving, ?_⟩
      cases e with
      | pg d =>
        simp only [step, Option.bind_eq_bind, Option.bind_eq_some_iff,
          Option.guard_eq_some'] at hstep
        obtain ⟨-, hinternal, pg, hd, hstep⟩ := hstep
        cases hstep
        -- What happens on the connections notifies nothing by itself.
        have hmessage : d.message? = none := by
          cases d with
          | notify note => cases hinternal
          | _ => rfl
        have hfed := hpg.fed_of_step hd
        rw [hmessage] at hfed
        refine Carries.of_feed rfl rfl (fun s ↦ batchesTo_append fun o ho ↦ ?_) hfed
        rw [PgEvent.observation.eq_def] at ho
        split at ho
        · obtain ⟨cmd, -, rfl⟩ := Option.map_eq_some_iff.mp (Option.mem_toList.mp ho)
          rfl
        · cases ho
      | deliver c => exact Carries.deliver hpg hstep
      | flush => exact Carries.flush hkeyed hstep
      | immediate => exact Carries.immediate hdistinct hstep
      | _ => cases hmoving

/-! ## The order -/

/-- The messages of a room on their way to a socket are numbered in order, and none has a number
that is not committed. -/
def Ordered (n : Node) : Prop :=
  ∀ s r, ((n.carried s r).map MessageRow.seq).Pairwise (· < ·) ∧
    ∀ row ∈ n.carried s r, row.seq ≤ (n.db.seqs r).length

/-- What is committed is numbered behind everything committed before. -/
theorem committed_above {db db' : Db} (h : db.SeqInv) (h' : db'.SeqInv) {rows : List MessageRow}
    (hrows : db'.messages = db.messages ++ rows) (r : Uuid) :
    (db.seqs r).length ≤ (db'.seqs r).length ∧
      ((ofRoom r rows).map MessageRow.seq).Pairwise (· < ·) ∧
      ∀ row ∈ ofRoom r rows, (db.seqs r).length < row.seq ∧ row.seq ≤ (db'.seqs r).length := by
  have hseqs : db'.seqs r = db.seqs r ++ (ofRoom r rows).map MessageRow.seq := by
    rw [Db.seqs, Db.messagesOf, hrows, List.filter_append, List.map_append]
    rfl
  have hincreasing : (db'.seqs r).Pairwise (· < ·) := by
    rw [h'.range r]
    exact List.pairwise_lt_range' 1
  have hlength : (db.seqs r).length ≤ (db'.seqs r).length := by
    rw [hseqs, List.length_append]
    exact Nat.le_add_right _ _
  refine ⟨hlength, ?_, fun row hrow ↦ ⟨?_, ?_⟩⟩
  · rw [hseqs, List.pairwise_append] at hincreasing
    exact hincreasing.2.1
  · have hseq : row.seq ∈ (ofRoom r rows).map MessageRow.seq := List.mem_map_of_mem hrow
    by_contra hle
    have hpos : 1 ≤ row.seq := by
      have hmem : row.seq ∈ db'.seqs r := hseqs ▸ List.mem_append_right _ hseq
      rw [h'.range r] at hmem
      exact (List.mem_range'_1.mp hmem).1
    have hold : row.seq ∈ db.seqs r := by
      rw [h.range r]
      exact List.mem_range'_1.mpr ⟨hpos, by omega⟩
    rw [hseqs, List.pairwise_append] at hincreasing
    exact Nat.lt_irrefl _ (hincreasing.2.2 _ hold _ hseq)
  · have hmem : row.seq ∈ db'.seqs r :=
      hseqs ▸ List.mem_append_right _ (List.mem_map_of_mem hrow)
    rw [h'.range r] at hmem
    have hlt := (List.mem_range'_1.mp hmem).2
    omega

theorem Ordered.of_carries (h : Ordered n) (hseq : n.db.SeqInv) (hseq' : n'.db.SeqInv)
    {rows : List MessageRow} (hrows : n'.db.messages = n.db.messages ++ rows)
    (hcarries : Carries rows n n') : Ordered n' := by
  intro s r
  obtain ⟨hincreasing, hbound⟩ := h s r
  obtain ⟨hlength, hnew, habove⟩ := committed_above hseq hseq' hrows r
  have hstream := hcarries.stream s r
  constructor
  · refine List.Pairwise.sublist (hstream.map MessageRow.seq) ?_
    rw [List.map_append, List.pairwise_append]
    refine ⟨hincreasing, hnew, fun k hk k' hk' ↦ ?_⟩
    obtain ⟨row, hrow, rfl⟩ := List.mem_map.mp hk
    obtain ⟨row', hrow', rfl⟩ := List.mem_map.mp hk'
    exact Nat.lt_of_le_of_lt (hbound row hrow) (habove row' hrow').1
  · intro row hrow
    rcases List.mem_append.mp (hstream.subset hrow) with hrow | hrow
    · exact (hbound row hrow).trans hlength
    · exact (habove row hrow).2

/-- The invariant: numbers in the database, the LISTEN connection, and what is on its way. -/
structure InOrder (n : Node) : Prop where
  seqInv : n.db.SeqInv
  oneWired : n.pg.OneWired
  keyed : Keyed n
  distinct : Distinct n
  ordered : Ordered n

theorem inOrder_start (nodeId : JsString) : InOrder (start nodeId) :=
  ⟨Db.seqInv_empty, PostgresService.oneWired_ready nodeId, fun _ ↦ nofun, nofun,
    fun _ _ ↦ ⟨List.Pairwise.nil, nofun⟩⟩

/-- **Step lemma.** -/
theorem InOrder.step (h : InOrder n) {e : Event} (he : n.FailsFast e)
    (hstep : n.step e = some n') : InOrder n' := by
  have hseq : n'.db.SeqInv := by
    rcases seqStep_of_step hstep with hsame | hseq
    · rw [hsame]
      exact h.seqInv
    · exact h.seqInv.step hseq
  have hpg : n'.pg.OneWired := by
    refine pg_of_step (fun d pg heq hd ↦ ?_) (fun d pg pg' hd hpg hstep ↦ hpg.step ?_ hstep)
      h.oneWired hstep
    · subst heq
      exact h.oneWired.step he hd
    · cases d <;> trivial
  obtain ⟨rows, hrows, hcarries⟩ := carried_of_step h.oneWired h.keyed h.distinct hstep
  exact ⟨hseq, hpg, hcarries.keyed h.keyed, hcarries.distinct h.distinct,
    h.ordered.of_carries h.seqInv hseq hrows hcarries⟩

/-- In every run in which no attempt to reconnect outlives the client it works on by more than the
delay of the reconnect timer, the `seq` values of a room's messages in the `new_message_batch`
frames sent to a socket are strictly increasing. -/
theorem live_delivery_increasing {nodeId : JsString} {es : List Event}
    (hrun : run step (start nodeId) es = some n)
    (hfails : Guarded step FailsFast (start nodeId) es) (s : SocketId) (r : Uuid) :
    (liveSeqs n.log s r).Pairwise (· < ·) := by
  have h := guarded_invariant InOrder (fun hinv he hstep ↦ hinv.step he hstep)
    (inOrder_start nodeId) hfails hrun
  refine List.Pairwise.sublist (List.Sublist.map MessageRow.seq (ofRoom_sublist ?_))
    (h.ordered s r).1
  rw [List.append_assoc, List.append_assoc]
  exact List.sublist_append_left _ _

/-- The LISTEN connection is replaced between two messages of a room. -/
theorem live_delivery_increasing_across_reconnect :
    ∃ n, run step (start []) [.db (.createUser [0x61] [0x61]), .db (.createRoom .nil),
        .db (.query (.insertMember Uuid.nil.text [0x61])), .connect [0x61],
        .frame 0 (.joinRoom ⟨⟨Uuid.nil.text, by decide⟩, none, by decide⟩), .runQuery 0 .answered,
        .resume 0, .pg (.execCommand 0 true), .pg (.resumeCall 0), .resume 0,
        .db (.beginInsert .nil [0x61] [0x62]), .db (.assignSequence 0), .db (.setUsername 0),
        .db (.store 0), .db (.commit 0), .deliver 0, .flush, .immediate,
        .pg (.clientError 0), .pg .reconnectTimerFires, .pg (.endSettles 1),
        .pg (.connectSettles 1 true), .pg (.resumeAttempt 1), .pg (.execCommand 1 true),
        .pg (.resumeAttempt 1), .pg (.execCommand 1 true), .pg (.resumeAttempt 1),
        .pg (.execCommand 1 true), .pg (.resumeAttempt 1),
        .db (.beginInsert .nil [0x61] [0x63]), .db (.assignSequence 1), .db (.setUsername 1),
        .db (.store 1), .db (.commit 1), .deliver 1, .flush, .immediate] = some n ∧
      liveSeqs n.log 0 .nil = [1, 2] ∧ (liveSeqs n.log 0 .nil).Pairwise (· < ·) :=
  exists_run_of_any (fun n : Node ↦ liveSeqs n.log 0 .nil = [1, 2]) (by decide)
    fun _ hrun hseqs ↦ ⟨hseqs, live_delivery_increasing hrun (by decide) 0 .nil⟩

end Node

end PostgresChat
