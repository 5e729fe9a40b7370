import PostgresChat.Js.Encode
import PostgresChat.Node.Tasks
import PostgresChat.Postgres.Vouched

/-!
# The identifiers of LISTEN and UNLISTEN

A client chooses the room id of its frames, and the node puts it between the quotation marks of an
identifier as it stands. What keeps this safe is that the node subscribes to a room only after a
query on `room_members` has returned a row for that very text, and that PostgreSQL has read the text
as a UUID to answer the query. An unsubscription comes without a query, and issues a command only
for a room that is counted.
-/

namespace PostgresChat

open Execution

/-- The room of a join whose query has returned a row, and that has not continued yet. -/
def TaskState.found : TaskState → Option RoomId
  | .awaiting (.joinMember R _) (.settled (.resolved result)) =>
    if result.rowCount = 0 then none else some R
  | _ => none

namespace Node

variable {n n' : Node} {R : RoomId}

/-! ## The property -/

/-- The step answers a query on `room_members` for the room id with a row. -/
def FindsMember (R : RoomId) (n : Node) (e : Event) : Prop :=
  ∃ k task stage userId, e = .runQuery k .answered ∧ n.tasks[k]? = some task ∧
    task.state = .awaiting stage .query ∧
    stage.request task.userId n.pg.nodeId = .query (.selectMember R userId) ∧
    n.db.exec (.selectMember R userId) = some (n.db, .rows 1, [])

/-- Between quotation marks the channel is one identifier, and it is not cut off. -/
def SafeIdentifier (channel : Channel) : Prop :=
  0x22 ∉ channel ∧ (JsString.utf8 channel).length < 63

instance (channel : Channel) : Decidable (SafeIdentifier channel) :=
  inferInstanceAs (Decidable (_ ∧ _))

/-! ## What a handler has been answered -/

/-- A row comes from a step that finds it. -/
theorem found_of_step {e : Event} (hstep : n.step e = some n') {task' : Task}
    (htask' : task' ∈ n'.tasks) (hfound : task'.state.found = some R) :
    (∃ task ∈ n.tasks, task.state.found = some R) ∨ FindsMember R n e := by
  obtain ⟨k, hget'⟩ := List.mem_iff_getElem?.mp htask'
  rcases task_of_step hstep hget' with
    ⟨task, hget, -, -, hmoves⟩ | ⟨s, socket, frame, -, -, -, rfl⟩
  · have hmem := List.mem_of_getElem? hget
    generalize task'.state = state' at hfound hmoves
    cases hmoves with
    | stays => exact Or.inl ⟨task, hmem, hfound⟩
    | ran stage q fate settled event state request result =>
      cases settled with
      | rejected => cases stage <;> cases hfound
      | resolved rows =>
        obtain ⟨rfl, db, notes, hexec⟩ := result rows rfl
        cases stage with
        | joinMember R' lastSeenSeq =>
          cases request
          simp only [TaskState.found, Option.ite_none_left_eq_some, Option.some.injEq] at hfound
          obtain ⟨hrows, rfl⟩ := hfound
          refine Or.inr ⟨k, task, _, task.userId, event, hget, state, rfl, ?_⟩
          simp only [Db.exec, Option.bind_eq_bind, Option.bind_eq_some_iff] at hexec ⊢
          obtain ⟨r, hr, hexec⟩ := hexec
          refine ⟨r, hr, ?_⟩
          cases hexec
          cases hmember : n.db.isMember r task.userId with
          | true => rfl
          | false =>
            rw [hmember] at hrows
            exact absurd rfl hrows
        | _ => cases hfound
    | inserts R' content promise promise' state => cases hfound
    | continues stage stage' promise promise' settled state settles next pending =>
      cases promise' with
      | settled settled' => exact absurd rfl (pending settled')
      | _ => cases stage' <;> cases hfound
    | ends => cases hfound
  · have hfirst : (firstState socket.userId frame).found = none := by
      rw [firstState]
      split
      · rename_i stage _
        cases stage <;> rfl
      · rfl
      · rfl
    rw [hfirst] at hfound
    cases hfound

/-! ## The invariant -/

/-- What the rooms of `P` vouch for: the LISTEN connection, and the rows that joins have been
answered with. -/
structure Vouched (P : RoomId → Prop) (n : Node) : Prop where
  pg : n.pg.Vouched P
  found : ∀ task ∈ n.tasks, ∀ R, task.state.found = some R → P R

variable {P : RoomId → Prop}

theorem vouched_start (nodeId : JsString) : Vouched P (start nodeId) :=
  ⟨PostgresService.vouched_ready nodeId, by rintro _ ⟨⟩⟩

/-- A join that goes on to subscribe has been answered with a row. -/
theorem found_of_subscribing {task : Task} {stage : Stage} {promise : Promise} {settled : Settled}
    {lastSeenSeq : Option JsNumber} (hstate : task.state = .awaiting stage promise)
    (hsettled : n.settledOf promise = some settled) (hstage : stage = .joinMember R lastSeenSeq)
    (hnext : (stage.resume settled).next = .await (.joinSubscribe R lastSeenSeq)) :
    task.state.found = some R := by
  subst hstage
  cases settled with
  | rejected => cases hnext
  | resolved result =>
    have hrows : result.rowCount ≠ 0 := by
      intro hzero
      rw [Stage.resume, Stage.proceed, if_pos hzero] at hnext
      cases hnext
    cases promise with
    | settled settled' =>
      rw [settledOf, Option.some.injEq] at hsettled
      rw [hstate, hsettled, TaskState.found, if_neg hrows]
    | call id =>
      rw [settledOf.eq_def] at hsettled
      dsimp only at hsettled
      split at hsettled
      · rename_i ok _
        cases ok <;> cases hsettled
        exact absurd rfl hrows
      · cases hsettled
    | query => cases hsettled
    | inserting t => cases hsettled

/-- The LISTEN connection is called for rooms that are vouched for. -/
theorem Vouched.pg_step (h : Vouched P n) {e : Event} (hstep : n.step e = some n') :
    n'.pg.Vouched P := by
  have hunsubscribe : ∀ pg R, PostgresService.Vouched P pg →
      (pg.unsubscribeFromRoomChannel R).Vouched P := fun pg R hpg ↦ hpg.unsubscribe R
  cases stepped_of_step hstep with
  | connected => exact h.pg
  | received s frame socket _ _ hreceived =>
    rw [hreceived.pg]
    exact pg_updateRooms hunsubscribe h.pg _ s frame
  | resumed k task stage settled _ hresumed =>
    obtain ⟨promise, hstate, hsettled⟩ := hresumed.awaiting
    obtain ⟨-, -, hpg, -⟩ := observeCheck_frame n k stage settled
    rw [hresumed.turned.pg, hpg]
    rcases resume_cases stage settled with
      ⟨R, lastSeenSeq, hstage, hnext⟩ | ⟨R, -, hnext⟩ | ⟨hordinary, -⟩
    · have hfound := found_of_subscribing hstate hsettled hstage hnext
      rw [hnext]
      exact h.pg.subscribe (h.found task (List.mem_of_getElem? hresumed.get) R hfound)
    · rw [hnext]
      exact h.pg.unsubscribe R
    · rw [hordinary.pg]
      exact h.pg
  | marked _ s _ _ hmarked => exact hmarked.pg ▸ h.pg
  | cleaned _ s _ _ _ hcleaned =>
    exact hcleaned.pg (PostgresService.Vouched P) hunsubscribe h.pg
  | quiet e _ he =>
    obtain ⟨ds, hrun, hds⟩ := pg_of_quiet_step he hstep
    refine guarded_invariant (PostgresService.Vouched P) (fun hpg hd hstep' ↦ ?_) h.pg
      (guarded_of_forall (Passes e) hds _) hrun
    refine hpg.step (fun R hR ↦ ?_) hstep'
    subst hR
    rcases hd with ⟨note, hd⟩ | ⟨c, hd⟩ | ⟨-, hinternal⟩
    · cases hd
    · cases hd
    · cases hinternal

/-- **Step lemma.** A step vouches for the room it finds a row for. -/
theorem Vouched.step (h : Vouched P n) {e : Event} (hstep : n.step e = some n') :
    Vouched (fun R ↦ P R ∨ FindsMember R n e) n' := by
  refine ⟨(h.pg_step hstep).mono fun _ ↦ Or.inl, fun task' htask' R hfound ↦ ?_⟩
  rcases found_of_step hstep htask' hfound with ⟨task, htask, hold⟩ | hnew
  · exact Or.inl (h.found task htask R hold)
  · exact Or.inr hnew

/-! ## Runs -/

/-- A room for which a row has been found is spelled as a UUID. -/
theorem exists_parse_of_findsMember {e : Event} (h : FindsMember R n e) :
    ∃ r, Uuid.parse R = some r := by
  obtain ⟨k, task, stage, userId, -, -, -, -, hexec⟩ := h
  simp only [Db.exec, Option.bind_eq_bind, Option.bind_eq_some_iff] at hexec
  exact hexec.imp fun _ hr ↦ hr.1

theorem safeIdentifier_of_isAscii {channel : Channel}
    (h : ∀ u ∈ channel, JsString.isAscii u = true ∧ u ≠ 0x22) (hlength : channel.length < 63) :
    SafeIdentifier channel := by
  refine ⟨fun hquote ↦ (h _ hquote).2 rfl, ?_⟩
  have hutf8 := JsString.utf8_append_of_isAscii (fun u hu ↦ (h u hu).1) []
  rw [List.append_nil] at hutf8
  rw [hutf8, List.length_append, List.length_map]
  exact hlength

theorem safeIdentifier_getRoomNotifyChannel {r : Uuid} (h : Uuid.parse R = some r) :
    SafeIdentifier (getRoomNotifyChannel R) := by
  obtain ⟨hlength, hunits⟩ := Uuid.spelling_of_parse h
  have hprefix : ∀ u ∈ roomChannelPrefix, JsString.isAscii u = true ∧ u ≠ 0x22 := by
    intro u hu
    have hall : roomChannelPrefix.all (fun u ↦ JsString.isAscii u && u != 0x22) = true := by decide
    simpa using List.all_eq_true.mp hall u hu
  refine safeIdentifier_of_isAscii (fun u hu ↦ ?_) ?_
  · rcases List.mem_append.mp hu with hu | hu
    · exact hprefix u hu
    · exact Uuid.isAscii_of_isUuidUnit (hunits u hu)
  · rw [getRoomNotifyChannel, List.length_append, show roomChannelPrefix.length = 5 from rfl]
    omega

/-- In every run each LISTEN and UNLISTEN that the node has issued is on one of its own two
channels, or on the channel of a room id for which a query on `room_members` has returned a row.
Such a room id consists of hexadecimal digits, hyphens and braces, and its channel is one identifier
of less than 63 bytes. -/
theorem listen_identifiers_safe {nodeId : JsString} {es : List Event}
    (hrun : run step (start nodeId) es = some n) :
    ∀ cl ∈ n.pg.clients, ∀ cmd ∈ cl.queue, SafeIdentifier cmd.channel ∧
      (cmd.channel = presenceChannel ∨ cmd.channel = typingChannel ∨
        ∃ R, cmd.channel = getRoomNotifyChannel R ∧
          Happened step (FindsMember R) (start nodeId) es ∧
          ∀ u ∈ R, Uuid.isUuidUnit u = true) := by
  have hvouched := happened_invariant FindsMember Vouched (fun h hstep ↦ h.step hstep)
    (vouched_start nodeId) hrun
  intro cl hcl cmd hcmd
  rcases hvouched.pg.channels cl hcl cmd hcmd with hchannel | hchannel | ⟨R, hR, hchannel⟩
  · rw [hchannel]
    exact ⟨by decide, Or.inl rfl⟩
  · rw [hchannel]
    exact ⟨by decide, Or.inr (Or.inl rfl)⟩
  · obtain ⟨m, e, hfinds⟩ := hR.exists
    obtain ⟨r, hr⟩ := exists_parse_of_findsMember hfinds
    rw [hchannel]
    exact ⟨safeIdentifier_getRoomNotifyChannel hr,
      Or.inr (Or.inr ⟨R, rfl, hR, (Uuid.spelling_of_parse hr).2⟩)⟩

/-- A member joins, and spells the room in braces. -/
theorem listen_identifiers_safe_in_braces :
    ∃ n, run step (start []) [.db (.createUser [0x61] [0x61]), .db (.createRoom .nil),
        .db (.query (.insertMember Uuid.nil.text [0x61])), .connect [0x61],
        .frame 0 (.joinRoom ⟨⟨0x7B :: Uuid.nil.text ++ [0x7D], by decide⟩, none, by decide⟩),
        .runQuery 0 .answered, .resume 0] = some n ∧
      ∃ cl ∈ n.pg.clients, ∃ cmd ∈ cl.queue,
        cmd.channel = getRoomNotifyChannel (0x7B :: Uuid.nil.text ++ [0x7D]) ∧
        SafeIdentifier cmd.channel := by
  refine exists_run_of_any (fun n : Node ↦ ∃ cl ∈ n.pg.clients, ∃ cmd ∈ cl.queue,
    cmd.channel = getRoomNotifyChannel (0x7B :: Uuid.nil.text ++ [0x7D])) (by decide) ?_
  rintro n hrun ⟨cl, hcl, cmd, hcmd, hchannel⟩
  exact ⟨cl, hcl, cmd, hcmd, hchannel, (listen_identifiers_safe hrun cl hcl cmd hcmd).1⟩

end Node

end PostgresChat
