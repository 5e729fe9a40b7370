import PostgresChat.Node.Rooms

/-!
# What carries messages

A message is committed to the database, notified on the LISTEN connection, batched in a buffer,
handed to `setImmediate` and sent. `SameStores` says that a step leaves all of these alone. Besides
the four kinds of steps that are not quiet, and those that move messages along (`Event.moves`), only
statements touch any of them: they change the database, and what it notifies goes to the LISTEN
connection.
-/

namespace PostgresChat

open Execution

/-- The steps of the LISTEN connection, and the timers that move messages along. -/
def Event.moves : Event → Bool
  | .pg _ | .deliver _ | .flush | .immediate => true
  | _ => false

namespace Node

variable {n n' n'' : Node}

/-- What carries messages is the same. -/
structure SameStores (n n' : Node) : Prop where
  db : n'.db = n.db
  pg : n'.pg = n.pg
  buffers : n'.roomMessageBatchBuffers = n.roomMessageBatchBuffers
  immediates : n'.immediates = n.immediates
  log : n'.log = n.log

theorem SameStores.refl (n : Node) : SameStores n n := ⟨rfl, rfl, rfl, rfl, rfl⟩

/-- What every step of a fold leaves alone, the fold leaves alone. -/
theorem foldl_frame {α β : Type} (g : Node → β) {f : Node → α → Node}
    (hf : ∀ n a, g (f n a) = g n) (l : List α) (n : Node) : g (l.foldl f n) = g n := by
  induction l generalizing n with
  | nil => rfl
  | cons a l ih => rw [List.foldl_cons, ih, hf]

/-! ## Broadcasts -/

/-- The database and the connection. -/
def backend (n : Node) : Db × PostgresService := (n.db, n.pg)

theorem backend_broadcastToRoom (n : Node) (R : RoomId) (frame : ServerFrame) :
    (n.broadcastToRoom R frame).backend = n.backend := by
  rw [broadcastToRoom]
  split <;> rfl

theorem backend_flushRoomMessageBatches (n : Node) :
    n.flushRoomMessageBatches.backend = n.backend := by
  refine foldl_frame backend (fun n entry ↦ ?_) _ n
  rw [flushBatch]
  split
  · rfl
  · exact backend_broadcastToRoom n _ _

theorem backend_onNotification (n : Node) (note : Notification) :
    (n.onNotification note).backend = n.backend := by
  cases note with
  | message row => rfl
  | presence row => exact backend_broadcastToRoom n _ _
  | typing row => exact backend_broadcastToRoom n _ _

theorem backend_sendToAll (n : Node) (recipients : List SocketId) (frame : ServerFrame) :
    (n.sendToAll recipients frame).backend = n.backend := by
  refine foldl_frame backend (fun n s ↦ ?_) _ n
  rw [send]
  split <;> rfl

/-! ## Statements -/

/-- The database is what the statement leaves; nothing is batched or sent at once. -/
theorem withDb_frame (n : Node) (db : Db) (notes : List Notification) :
    (n.withDb db notes).db = db ∧
      (n.withDb db notes).roomMessageBatchBuffers = n.roomMessageBatchBuffers ∧
      (n.withDb db notes).immediates = n.immediates := by
  have h := foldl_frame (fun n ↦ (n.db, n.roomMessageBatchBuffers, n.immediates))
    (f := notify) (fun _ _ ↦ rfl) notes { n with db := db }
  simp only [Prod.mk.injEq] at h
  exact h

/-- Notifications are passed on one by one. -/
theorem pg_withDb (n : Node) (db : Db) (notes : List Notification) :
    run PostgresService.step n.pg (notes.map PgEvent.notify) = some (n.withDb db notes).pg := by
  have hfold : ∀ (notes : List Notification) (n : Node),
      run PostgresService.step n.pg (notes.map PgEvent.notify) =
        some (notes.foldl notify n).pg := by
    intro notes
    induction notes with
    | nil => exact fun _ ↦ rfl
    | cons note notes ih => exact fun n ↦ ih (n.notify note)
  exact hfold notes { n with db := db }

theorem notify_listening {p : PostgresService} (note : Notification) {c : ℕ} {cl : Client}
    (hget : p.clients[c]? = some cl) :
    ∃ cl', (p.notify note).clients[c]? = some cl' ∧ cl'.listening = cl.listening := by
  refine ⟨_, by rw [PostgresService.notify, List.getElem?_map, hget]; rfl, ?_⟩
  dsimp only
  split <;> rfl

/-- Each client that listens on the channel of a notification is sent it. -/
theorem log_withDb (n : Node) (db : Db) (notes : List Notification) :
    ∃ os, (n.withDb db notes).log = n.log ++ os ∧
      (∀ o ∈ os, ∃ c note, o = .notified c note) ∧
      ∀ note ∈ notes, ∀ c cl, n.pg.clients[c]? = some cl → note.channel ∈ cl.listening →
        .notified c note ∈ os := by
  have hfold : ∀ (notes : List Notification) (n : Node),
      ∃ os, (notes.foldl notify n).log = n.log ++ os ∧ (∀ o ∈ os, ∃ c note, o = .notified c note) ∧
        ∀ note ∈ notes, ∀ c cl, n.pg.clients[c]? = some cl → note.channel ∈ cl.listening →
          .notified c note ∈ os := by
    intro notes
    induction notes with
    | nil => exact fun n ↦ ⟨[], (List.append_nil _).symm, nofun, nofun⟩
    | cons note notes ih =>
      intro n
      obtain ⟨os, hlog, hos, hnotified⟩ := ih (n.notify note)
      refine ⟨(n.listeners note).map (fun c ↦ .notified c note) ++ os, ?_, fun o ho ↦ ?_,
        fun note' hnote' c cl hget hchannel ↦ ?_⟩
      · rw [List.foldl_cons, hlog, ← List.append_assoc]
        rfl
      · rcases List.mem_append.mp ho with ho | ho
        · obtain ⟨c, -, rfl⟩ := List.mem_map.mp ho
          exact ⟨c, note, rfl⟩
        · exact hos o ho
      · rcases List.mem_cons.mp hnote' with rfl | hnote'
        · refine List.mem_append_left _ (List.mem_map.mpr ⟨c, ?_, rfl⟩)
          rw [listeners, List.mem_filter, List.mem_range]
          refine ⟨(List.getElem?_eq_some_iff.mp hget).1, ?_⟩
          rw [hget, Option.map_some, decide_eq_true hchannel, decide_eq_true rfl]
        · obtain ⟨cl', hget', hlistening⟩ := notify_listening note hget
          exact List.mem_append_right _ (hnotified note' hnote' c cl' hget' (hlistening ▸ hchannel))
  exact hfold notes { n with db := db }

/-- A quiet step that moves no messages along leaves them alone, or runs a statement. -/
theorem stores_of_quiet_step {e : Event} (he : e.quiet = true) (hmoves : e.moves = false)
    (hstep : n.step e = some n') :
    SameStores n n' ∨ ∃ d db notes, n.db.apply d = some (db, notes) ∧
      SameStores (n.withDb db notes) n' := by
  cases e with
  | runQuery k fate =>
    simp only [step, Option.bind_eq_bind, Option.bind_eq_some_iff] at hstep
    obtain ⟨task, -, hstep⟩ := hstep
    split at hstep
    · cases hstep
    · split at hstep
      · rename_i q _
        cases hstep
        unfold Node.runQuery
        split
        · rename_i db result notes hexec
          exact Or.inr ⟨.query q, db, notes, by rw [Db.apply, hexec]; rfl, rfl, rfl, rfl, rfl, rfl⟩
        · rename_i db result notes hexec
          exact Or.inr ⟨.query q, db, notes, by rw [Db.apply, hexec]; rfl, rfl, rfl, rfl, rfl, rfl⟩
        · exact Or.inl ⟨rfl, rfl, rfl, rfl, rfl⟩
      · cases hstep
    · cases hstep
  | beginInsert k =>
    simp only [step, Option.bind_eq_bind, Option.bind_eq_some_iff] at hstep
    obtain ⟨task, -, hstep⟩ := hstep
    split at hstep
    · cases hstep
      rw [Node.beginInsert]
      split
      · rename_i db notes happly
        obtain ⟨r, -, happly⟩ := Option.bind_eq_some_iff.mp happly
        exact Or.inr ⟨_, db, notes, happly, rfl, rfl, rfl, rfl, rfl⟩
      · exact Or.inl ⟨rfl, rfl, rfl, rfl, rfl⟩
    · cases hstep
  | insertSettles k lost =>
    simp only [step, Option.bind_eq_bind, Option.bind_eq_some_iff] at hstep
    obtain ⟨task, -, hstep⟩ := hstep
    split at hstep
    · simp only [Option.bind_eq_some_iff] at hstep
      obtain ⟨ins, -, -, -, hstep⟩ := hstep
      cases hstep
      exact Or.inl ⟨rfl, rfl, rfl, rfl, rfl⟩
    · cases hstep
  | db d =>
    simp only [step, Option.bind_eq_bind, Option.bind_eq_some_iff] at hstep
    obtain ⟨⟨db, notes⟩, happly, hstep⟩ := hstep
    cases hstep
    exact Or.inr ⟨d, db, notes, happly, SameStores.refl _⟩
  | pong s =>
    cases hstep
    exact Or.inl ⟨rfl, rfl, rfl, rfl, rfl⟩
  | socketClosing s =>
    simp only [step, Option.bind_eq_bind, Option.bind_eq_some_iff] at hstep
    obtain ⟨socket, -, -, -, hstep⟩ := hstep
    cases hstep
    exact Or.inl ⟨rfl, rfl, rfl, rfl, rfl⟩
  | buffered s bytes =>
    cases hstep
    exact Or.inl ⟨rfl, rfl, rfl, rfl, rfl⟩
  | destroyChat =>
    cases hstep
    exact Or.inl ⟨rfl, rfl, rfl, rfl, rfl⟩
  | pg d => cases hmoves
  | deliver c => cases hmoves
  | flush => cases hmoves
  | immediate => cases hmoves
  | connect userId => cases he
  | frame s frame => cases he
  | resume k => cases he
  | heartbeat s => cases he
  | socketError s => cases he
  | socketClose s => cases he

/-- A step that moves messages along, and one that is not quiet, leaves the database alone. -/
theorem db_of_step {e : Event} (he : e.quiet = false ∨ e.moves = true)
    (hstep : n.step e = some n') : n'.db = n.db := by
  cases stepped_of_step hstep with
  | connected => rfl
  | received s frame socket _ _ hreceived => exact hreceived.db
  | resumed k task stage settled _ hresumed =>
    exact hresumed.turned.db.trans (observeCheck_frame n k stage settled).1.db
  | marked _ s _ _ hmarked => exact hmarked.db
  | cleaned _ s _ _ _ hcleaned => exact hcleaned.same.2.1
  | quiet e _ hquiet =>
    have hmoves := he.resolve_left (by rw [hquiet]; exact Bool.noConfusion)
    cases e with
    | pg d =>
      simp only [step, Option.bind_eq_bind, Option.bind_eq_some_iff] at hstep
      obtain ⟨-, -, pg, -, hstep⟩ := hstep
      cases hstep
      rfl
    | deliver c =>
      simp only [step, Option.bind_eq_bind, Option.bind_eq_some_iff] at hstep
      obtain ⟨pg, -, hstep⟩ := hstep
      split at hstep
      · rename_i note _
        cases hstep
        exact congrArg Prod.fst (backend_onNotification { n with pg := pg } note)
      · cases hstep
        rfl
    | flush =>
      simp only [step, Option.ite_none_right_eq_some, Option.some.injEq] at hstep
      obtain ⟨-, rfl⟩ := hstep
      exact congrArg Prod.fst (backend_flushRoomMessageBatches { n with flushTimer := false })
    | immediate =>
      simp only [step] at hstep
      split at hstep
      · cases hstep
      · rename_i recipients frame rest _
        cases hstep
        exact congrArg Prod.fst (backend_sendToAll { n with immediates := rest } recipients frame)
    | _ => cases hmoves

/-- The database moves by its own steps. -/
theorem seqStep_of_step {e : Event} (hstep : n.step e = some n') :
    n'.db = n.db ∨ Db.SeqStep n.db n'.db := by
  by_cases he : e.quiet = true ∧ e.moves = false
  · rcases stores_of_quiet_step he.1 he.2 hstep with hsame | ⟨d, db, notes, happly, hsame⟩
    · exact Or.inl hsame.db
    · rw [hsame.db, (withDb_frame n db notes).1]
      exact Or.inr (Db.seqStep_of_apply happly)
  · rw [not_and_or, Bool.not_eq_true, Bool.not_eq_false] at he
    exact Or.inl (db_of_step he hstep)

/-- A message that is committed is notified to each client that listens on the channel of its
room. -/
theorem committed_of_step {e : Event} (hstep : n.step e = some n') :
    ∃ rows os, n'.db.messages = n.db.messages ++ rows ∧ n'.log = n.log ++ os ∧
      ∀ row ∈ rows, ∀ c cl, n.pg.clients[c]? = some cl →
        getRoomNotifyChannel row.roomId.text ∈ cl.listening → .notified c (.message row) ∈ os := by
  obtain ⟨os, hlog⟩ := log_of_step hstep
  by_cases he : e.quiet = true ∧ e.moves = false
  · rcases stores_of_quiet_step he.1 he.2 hstep with hsame | ⟨d, db, notes, happly, hsame⟩
    · exact ⟨[], os, by rw [hsame.db, List.append_nil], hlog, nofun⟩
    · obtain ⟨os', hlog', -, hnotified⟩ := log_withDb n db notes
      refine ⟨notes.filterMap Notification.message?, os', ?_, hsame.log.trans hlog',
        fun row hrow c cl hget hchannel ↦ ?_⟩
      · rw [hsame.db, (withDb_frame n db notes).1]
        exact Db.messages_of_apply happly
      · obtain ⟨note, hnote, hmessage⟩ := List.mem_filterMap.mp hrow
        cases note with
        | message row' =>
          cases hmessage
          exact hnotified _ hnote c cl hget hchannel
        | presence row' => cases hmessage
        | typing row' => cases hmessage
  · refine ⟨[], os, ?_, hlog, nofun⟩
    rw [List.append_nil, db_of_step ?_ hstep]
    rw [not_and_or, Bool.not_eq_true, Bool.not_eq_false] at he
    exact he

end Node

end PostgresChat
