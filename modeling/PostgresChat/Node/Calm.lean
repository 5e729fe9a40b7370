import PostgresChat.Node.Stores
import PostgresChat.Postgres.Undisturbed

/-!
# The LISTEN connection of a node

A node makes calls of its LISTEN connection in four kinds of steps only: a frame or a cleanup may
remove the last socket of a room, and a continuation may subscribe or unsubscribe. In all other
steps the connection takes a step of its own, or passes notifications on.
-/

namespace PostgresChat

open Execution

/-- The events there are while no command fails and the LISTEN connection is not replaced. -/
def Event.Calm : Event → Prop
  | .pg d => d.Calm
  | _ => True

instance : (e : Event) → Decidable e.Calm
  | .pg d => inferInstanceAs (Decidable d.Calm)
  | .connect _ | .frame .. | .runQuery .. | .beginInsert _ | .insertSettles .. | .db _ | .resume _
  | .deliver _ | .flush | .immediate | .heartbeat _ | .pong _ | .socketError _ | .socketClosing _
  | .socketClose _ | .buffered .. | .destroyChat => isTrue trivial

namespace Node

variable {n n' : Node}

/-- What a quiet step lets the connection do. -/
def Passes (e : Event) (d : PgEvent) : Prop :=
  (∃ note, d = .notify note) ∨ (∃ c, d = .deliver c) ∨ e = .pg d ∧ d.internal = true

theorem passes_notify {e : Event} {notes : List Notification} :
    ∀ d ∈ notes.map PgEvent.notify, Passes e d := by
  intro d hd
  obtain ⟨note, -, rfl⟩ := List.mem_map.mp hd
  exact Or.inl ⟨note, rfl⟩

/-- In a quiet step the connection passes notifications on, or takes a step of its own. -/
theorem pg_of_quiet_step {e : Event} (he : e.quiet = true) (hstep : n.step e = some n') :
    ∃ ds, run PostgresService.step n.pg ds = some n'.pg ∧ ∀ d ∈ ds, Passes e d := by
  have hstatement : e.moves = false →
      ∃ ds, run PostgresService.step n.pg ds = some n'.pg ∧ ∀ d ∈ ds, Passes e d := by
    intro hmoves
    rcases stores_of_quiet_step he hmoves hstep with hsame | ⟨d, db, notes, -, hsame⟩
    · exact ⟨[], by rw [hsame.pg]; rfl, nofun⟩
    · exact ⟨_, by rw [hsame.pg]; exact pg_withDb n db notes, passes_notify⟩
  cases e with
  | pg d =>
    simp only [step, Option.bind_eq_bind, Option.bind_eq_some_iff, Option.guard_eq_some'] at hstep
    obtain ⟨-, hinternal, pg, hpg, hstep⟩ := hstep
    cases hstep
    refine ⟨[d], run_cons_eq_some.mpr ⟨pg, hpg, rfl⟩, fun d' hd' ↦ ?_⟩
    rw [List.mem_singleton.mp hd']
    exact Or.inr (Or.inr ⟨rfl, hinternal⟩)
  | deliver c =>
    simp only [step, Option.bind_eq_bind, Option.bind_eq_some_iff] at hstep
    obtain ⟨pg, hpg, hstep⟩ := hstep
    have hrun : run PostgresService.step n.pg [.deliver c] = some pg :=
      run_cons_eq_some.mpr ⟨pg, hpg, rfl⟩
    have hpasses : ∀ d ∈ [PgEvent.deliver c], Passes (.deliver c) d := fun d hd ↦
      Or.inr (Or.inl ⟨c, List.mem_singleton.mp hd⟩)
    split at hstep
    · rename_i note _
      cases hstep
      have hbackend := backend_onNotification { n with pg := pg } note
      exact ⟨_, hrun.trans (congrArg some (congrArg Prod.snd hbackend).symm), hpasses⟩
    · cases hstep
      exact ⟨_, hrun, hpasses⟩
  | flush =>
    simp only [step, Option.ite_none_right_eq_some, Option.some.injEq] at hstep
    obtain ⟨-, rfl⟩ := hstep
    have hbackend := backend_flushRoomMessageBatches { n with flushTimer := false }
    exact ⟨[], congrArg some (congrArg Prod.snd hbackend).symm, nofun⟩
  | immediate =>
    simp only [step] at hstep
    split at hstep
    · cases hstep
    · rename_i recipients frame rest _
      cases hstep
      have hbackend := backend_sendToAll { n with immediates := rest } recipients frame
      exact ⟨[], congrArg some (congrArg Prod.snd hbackend).symm, nofun⟩
  | _ => exact hstatement rfl

/-- In a quiet step that is not one of its own the connection only passes notifications on. -/
theorem pg_cases_of_quiet_step {e : Event} (he : e.quiet = true) (hstep : n.step e = some n') :
    (∃ d, e = .pg d ∧ d.internal = true ∧ n.pg.step d = some n'.pg) ∨
      ∃ ds, run PostgresService.step n.pg ds = some n'.pg ∧
        ∀ d ∈ ds, (∃ note, d = .notify note) ∨ ∃ c, d = .deliver c := by
  by_cases hown : ∃ d, e = .pg d
  · obtain ⟨d, rfl⟩ := hown
    simp only [step, Option.bind_eq_bind, Option.bind_eq_some_iff, Option.guard_eq_some'] at hstep
    obtain ⟨-, hinternal, pg, hpg, hstep⟩ := hstep
    cases hstep
    exact Or.inl ⟨d, rfl, hinternal, hpg⟩
  · obtain ⟨ds, hrun, hds⟩ := pg_of_quiet_step he hstep
    exact Or.inr ⟨ds, hrun, fun d hd ↦
      (hds d hd).imp_right fun h ↦ h.resolve_right fun h ↦ hown ⟨d, h.1⟩⟩

end Node

/-! ## Continuations -/

/-- The room of a join that has passed its check, from its subscription on. -/
def Stage.joining : Stage → Option RoomId
  | .joinSubscribe R _ | .joinHistory R _ | .joinPresence R => some R
  | .joinMember .. | .leavePresence _ | .leaveUnsubscribe _ | .sendMember .. | .sendInsert ..
  | .typingStartMember _ | .typingStartUpsert _ | .typingStopDelete _ => none

/-- The room of a `leave_room` that has not unsubscribed yet. -/
def Stage.leaving : Stage → Option RoomId
  | .leavePresence R => some R
  | .joinMember .. | .joinSubscribe .. | .joinHistory .. | .joinPresence _ | .leaveUnsubscribe _
  | .sendMember .. | .sendInsert .. | .typingStartMember _ | .typingStartUpsert _
  | .typingStopDelete _ => none

/-- The room that a join subscribes to when it has passed its check. -/
def Next.subscribes : Next → Option RoomId
  | .await (.joinSubscribe R _) => some R
  | _ => none

/-- The room that the handler of a `leave_room` unsubscribes from. -/
def Next.unsubscribes : Next → Option RoomId
  | .await (.leaveUnsubscribe R) => some R
  | _ => none

def Next.stage? : Next → Option Stage
  | .await stage => some stage
  | .returned | .threw => none

namespace Node

variable {n n' : Node}

/-- A continuation that is neither a passed check nor a `leave_room` about to unsubscribe: it makes
no call, starts no leaving, and goes on with a join only if it was one. -/
structure Ordinary (stage : Stage) (next : Next) : Prop where
  pg : ∀ (pg : PostgresService) (userId : UserId), (afterTurn pg userId next).1 = pg
  leaving : next.stage?.bind Stage.leaving = none
  subscribes : next.subscribes = none
  joining : ∀ R, next.stage?.bind Stage.joining = some R → stage.joining = some R

/-- The three ways a handler continues. -/
theorem resume_cases (stage : Stage) (settled : Settled) :
    (∃ R lastSeenSeq, stage = .joinMember R lastSeenSeq ∧
        (stage.resume settled).next = .await (.joinSubscribe R lastSeenSeq)) ∨
      (∃ R, stage = .leavePresence R ∧
        (stage.resume settled).next = .await (.leaveUnsubscribe R)) ∨
      Ordinary stage (stage.resume settled).next ∧
        (∀ R, stage = .leavePresence R → settled = .rejected) := by
  have hended : ∀ {next : Next}, next.stage? = none → Ordinary stage next := by
    intro next hnext
    cases next with
    | await stage => cases hnext
    | returned => exact ⟨fun _ _ ↦ rfl, rfl, rfl, by rintro _ ⟨⟩⟩
    | threw => exact ⟨fun _ _ ↦ rfl, rfl, rfl, by rintro _ ⟨⟩⟩
  cases settled with
  | rejected => exact Or.inr (Or.inr ⟨hended rfl, fun _ _ ↦ rfl⟩)
  | resolved result =>
    cases stage with
    | joinMember R lastSeenSeq =>
      by_cases hrows : result.rowCount = 0
      · refine Or.inr (Or.inr ⟨?_, by rintro _ ⟨⟩⟩)
        simp only [Stage.resume, Stage.proceed, hrows, if_true]
        exact hended rfl
      · refine Or.inl ⟨R, lastSeenSeq, rfl, ?_⟩
        simp only [Stage.resume, Stage.proceed, hrows, if_false]
    | joinSubscribe R lastSeenSeq =>
      cases lastSeenSeq with
      | none => exact Or.inr (Or.inr ⟨⟨fun _ _ ↦ rfl, rfl, rfl, fun _ h ↦ h⟩, by rintro _ ⟨⟩⟩)
      | some n => exact Or.inr (Or.inr ⟨⟨fun _ _ ↦ rfl, rfl, rfl, fun _ h ↦ h⟩, by rintro _ ⟨⟩⟩)
    | joinHistory R lastSeenSeq =>
      exact Or.inr (Or.inr ⟨⟨fun _ _ ↦ rfl, rfl, rfl, fun _ h ↦ h⟩, by rintro _ ⟨⟩⟩)
    | joinPresence R => exact Or.inr (Or.inr ⟨hended rfl, by rintro _ ⟨⟩⟩)
    | leavePresence R => exact Or.inr (Or.inl ⟨R, rfl, rfl⟩)
    | sendMember R content =>
      refine Or.inr (Or.inr ⟨?_, by rintro _ ⟨⟩⟩)
      simp only [Stage.resume, Stage.proceed]
      split
      · exact hended rfl
      · exact ⟨fun _ _ ↦ rfl, rfl, rfl, by rintro _ ⟨⟩⟩
    | typingStartMember R =>
      refine Or.inr (Or.inr ⟨?_, by rintro _ ⟨⟩⟩)
      simp only [Stage.resume, Stage.proceed]
      split
      · exact hended rfl
      · exact ⟨fun _ _ ↦ rfl, rfl, rfl, by rintro _ ⟨⟩⟩
    | leaveUnsubscribe R => exact Or.inr (Or.inr ⟨hended rfl, by rintro _ ⟨⟩⟩)
    | sendInsert R content => exact Or.inr (Or.inr ⟨hended rfl, by rintro _ ⟨⟩⟩)
    | typingStartUpsert R => exact Or.inr (Or.inr ⟨hended rfl, by rintro _ ⟨⟩⟩)
    | typingStopDelete R => exact Or.inr (Or.inr ⟨hended rfl, by rintro _ ⟨⟩⟩)

/-- The `await` a handler stands at after a turn. -/
theorem stage?_afterTurn (task : Task) (pg : PostgresService) (userId : UserId) (next : Next) :
    ({ task with state := (afterTurn pg userId next).2 } : Task).stage? = next.stage? := by
  cases next <;> rfl

/-- The first `await` of a handler is neither in a join past its check nor in a `leave_room` past
its first statement. -/
theorem joining_firstState (s : SocketId) (userId : UserId) (frame : ClientFrame) :
    (Task.stage? ⟨s, userId, firstState userId frame⟩).bind Stage.joining = none := by
  by_cases hu : userId = []
  · simp only [firstState, handleFrame, hu, if_true, Task.stage?, Option.bind_none]
  · cases frame with
    | sendMessage payload =>
      simp only [firstState, handleFrame, hu, if_false, handleSendMessage_eq]
      rfl
    | _ =>
      simp only [firstState, handleFrame, hu, if_false]
      rfl

/-- A handler starts with leaving exactly for a `leave_room` frame. -/
theorem leaving_firstState (s : SocketId) {userId : UserId} (hu : userId ≠ [])
    (frame : ClientFrame) :
    (Task.stage? ⟨s, userId, firstState userId frame⟩).bind Stage.leaving =
      match frame with
      | .leaveRoom payload => some payload.roomId
      | _ => none := by
  cases frame with
  | sendMessage payload =>
    simp only [firstState, handleFrame, hu, if_false, handleSendMessage_eq]
    rfl
  | _ =>
    simp only [firstState, handleFrame, hu, if_false]
    rfl

/-! ## While nothing fails -/

theorem pg_updateRooms {P : PostgresService → Prop}
    (hP : ∀ pg R, P pg → P (pg.unsubscribeFromRoomChannel R)) (h : P n.pg) (k : ℕ) (s : SocketId)
    (frame : ClientFrame) : P (n.updateRooms k s frame).pg := by
  cases frame with
  | leaveRoom payload =>
    change P ((n.observe _).removeSocketFromRoom payload.roomId s).pg
    rw [removeSocketFromRoom_pg]
    split
    · exact hP _ _ h
    · exact h
  | _ => exact h

theorem pg_afterTurn {P : PostgresService → Prop} {pg : PostgresService}
    (hsubscribe : ∀ R, P pg → P (pg.subscribeToRoomChannel R))
    (hunsubscribe : ∀ R, P pg → P (pg.unsubscribeFromRoomChannel R)) (h : P pg) (userId : UserId)
    (next : Next) : P (afterTurn pg userId next).1 := by
  cases next with
  | await stage =>
    change P (request pg (stage.request userId pg.nodeId)).1
    cases stage.request userId pg.nodeId with
    | query q => exact h
    | subscribe R => exact hsubscribe R h
    | unsubscribe R => exact hunsubscribe R h
  | returned => exact h
  | threw => exact h

/-- In a step that is not quiet the connection answers calls only. -/
theorem pg_of_calling_step {P : PostgresService → Prop} {e : Event} (he : e.quiet = false)
    (hsubscribe : ∀ pg R, P pg → P (pg.subscribeToRoomChannel R))
    (hunsubscribe : ∀ pg R, P pg → P (pg.unsubscribeFromRoomChannel R)) (h : P n.pg)
    (hstep : n.step e = some n') : P n'.pg := by
  cases stepped_of_step hstep with
  | connected => exact h
  | received s frame socket _ _ hreceived =>
    rw [hreceived.pg]
    exact pg_updateRooms hunsubscribe h _ s frame
  | resumed k task stage settled _ hresumed =>
    obtain ⟨-, -, hpg, -⟩ := observeCheck_frame n k stage settled
    rw [hresumed.turned.pg, hpg]
    exact pg_afterTurn (hsubscribe n.pg) (hunsubscribe n.pg) h _ _
  | marked _ s _ _ hmarked => exact hmarked.pg ▸ h
  | cleaned _ s _ _ _ hcleaned => exact hcleaned.pg P hunsubscribe h
  | quiet _ _ hquiet => cases he.symm.trans hquiet

/-- **The rule for the LISTEN connection.** What its own steps, calls, notifications and deliveries
preserve, every step of the node preserves. -/
theorem pg_of_step {P : PostgresService → Prop} {e : Event}
    (hown : ∀ d pg, e = .pg d → n.pg.step d = some pg → P pg)
    (hother : ∀ d pg pg', d.internal = false → P pg → pg.step d = some pg' → P pg') (h : P n.pg)
    (hstep : n.step e = some n') : P n'.pg := by
  cases hquiet : e.quiet with
  | false =>
    exact pg_of_calling_step hquiet (fun pg R hpg ↦ hother (.subscribe R) pg _ rfl hpg rfl)
      (fun pg R hpg ↦ hother (.unsubscribe R) pg _ rfl hpg rfl) h hstep
  | true =>
    rcases pg_cases_of_quiet_step hquiet hstep with ⟨d, he, -, hd⟩ | ⟨ds, hrun, hds⟩
    · exact hown d _ he hd
    · refine guarded_invariant P (fun hpg hd hstep ↦ hother _ _ _ hd hpg hstep) h
        (guarded_of_forall (fun d : PgEvent ↦ d.internal = false) (fun d hd ↦ ?_) _) hrun
      rcases hds d hd with ⟨note, rfl⟩ | ⟨c, rfl⟩ <;> rfl

theorem nodeId_of_step {e : Event} (hstep : n.step e = some n') : n'.pg.nodeId = n.pg.nodeId :=
  pg_of_step (fun _ _ _ hpg ↦ PostgresService.nodeId_of_step hpg)
    (fun _ _ _ _ h hpg ↦ (PostgresService.nodeId_of_step hpg).trans h) rfl hstep

theorem calm_of_passes {e : Event} (he : e.Calm) {d : PgEvent} (hd : Passes e d) : d.Calm := by
  rcases hd with ⟨note, rfl⟩ | ⟨c, rfl⟩ | ⟨rfl, -⟩
  · trivial
  · trivial
  · exact he

/-- **Step lemma.** While nothing fails, the LISTEN connection is undisturbed. -/
theorem undisturbed_step (h : n.pg.Undisturbed) {e : Event} (he : e.Calm)
    (hstep : n.step e = some n') : n'.pg.Undisturbed := by
  refine pg_of_step (fun d pg heq hpg ↦ h.step ?_ hpg) (fun d pg pg' hd hpg hstep ↦
    hpg.step ?_ hstep) h hstep
  · subst heq
    exact he
  · cases d <;> trivial

/-- Counts change by calls only. -/
theorem roomCount_of_quiet_step (h : n.pg.Undisturbed) {e : Event} (he : e.Calm)
    (hq : e.quiet = true) (hstep : n.step e = some n') (R : RoomId) :
    n'.pg.roomCount R = n.pg.roomCount R := by
  obtain ⟨ds, hrun, hds⟩ := pg_of_quiet_step hq hstep
  have hcall : ∀ d, Passes e d → d.Calm ∧ ∀ R, d ≠ .subscribe R ∧ d ≠ .unsubscribe R := by
    intro d hd
    refine ⟨calm_of_passes he hd, fun R ↦ ?_⟩
    rcases hd with ⟨note, rfl⟩ | ⟨c, rfl⟩ | ⟨-, hinternal⟩
    · exact ⟨nofun, nofun⟩
    · exact ⟨nofun, nofun⟩
    · constructor <;> rintro rfl <;> cases hinternal
  refine (guarded_invariant (fun pg : PostgresService ↦ pg.Undisturbed ∧
    pg.roomCount R = n.pg.roomCount R) ?_ ⟨h, rfl⟩
    (guarded_of_forall _ (fun d hd ↦ hcall d (hds d hd)) _) hrun).2
  rintro pg d pg' ⟨hpg, hcount⟩ ⟨hcalm, hd⟩ hstep'
  refine ⟨hpg.step hcalm hstep', ?_⟩
  obtain ⟨hcounts, -⟩ := PostgresService.frame_of_calm_step hpg.agreement hcalm hd hstep'
  rw [PostgresService.roomCount_of_counts_eq hcounts, hcount]

/-- How the turn that a step takes ends. -/
def upcoming (n : Node) : Event → Option Next
  | .resume k => do
    let task ← n.tasks[k]?
    match task.state with
    | .awaiting stage promise => (n.settledOf promise).map fun settled ↦ (stage.resume settled).next
    | .ended => none
  | _ => none

theorem upcoming_of_resumed {k : ℕ} {task : Task} {stage : Stage} {settled : Settled}
    (h : Resumed n n' k task stage settled) :
    n.upcoming (.resume k) = some (stage.resume settled).next := by
  obtain ⟨promise, hstate, hsettled⟩ := h.awaiting
  simp only [upcoming, h.get, Option.bind_eq_bind, Option.bind_some, hstate, hsettled,
    Option.map_some]

/-- The room that a step subscribes to: a join passes its check. -/
def subscribes (n : Node) (e : Event) : Option RoomId := (n.upcoming e).bind Next.subscribes

/-- The room that a step unsubscribes from: the handler of a `leave_room` continues. -/
def unsubscribes (n : Node) (e : Event) : Option RoomId := (n.upcoming e).bind Next.unsubscribes

theorem roomCount_afterTurn (pg : PostgresService) (userId : UserId) (next : Next) (R : RoomId) :
    (afterTurn pg userId next).1.roomCount R =
      if next.subscribes = some R then pg.roomCount R + 1
      else if next.unsubscribes = some R then pg.roomCount R - 1 else pg.roomCount R := by
  cases next with
  | await stage =>
    cases stage with
    | joinSubscribe R' lastSeenSeq =>
      refine (pg.roomCount_subscribe R' R).trans ?_
      simp only [Next.subscribes, Option.some.injEq, eq_comm (a := R')]
      split
      · rename_i hR
        rw [hR]
      · rfl
    | leaveUnsubscribe R' =>
      refine (pg.roomCount_unsubscribe R' R).trans ?_
      simp only [Next.subscribes, Next.unsubscribes, reduceCtorEq, if_false, Option.some.injEq,
        eq_comm (a := R')]
      split
      · rename_i hR
        rw [hR]
      · rfl
    | _ => rfl
  | returned => rfl
  | threw => rfl

/-- What a continuation does to the counts. -/
theorem roomCount_of_resumed {k : ℕ} {task : Task} {stage : Stage} {settled : Settled}
    (h : Resumed n n' k task stage settled) (R : RoomId) :
    n'.pg.roomCount R =
      if n.subscribes (.resume k) = some R then n.pg.roomCount R + 1
      else if n.unsubscribes (.resume k) = some R then n.pg.roomCount R - 1
      else n.pg.roomCount R := by
  obtain ⟨-, -, hpg, -⟩ := observeCheck_frame n k stage settled
  rw [h.turned.pg, hpg, roomCount_afterTurn, subscribes, unsubscribes, upcoming_of_resumed h,
    Option.bind_some, Option.bind_some]

/-- No handler continues after a promise that was rejected. -/
def NoRejection (n : Node) (e : Event) : Prop := n.upcoming e ≠ some .threw

instance (n : Node) (e : Event) : Decidable (n.NoRejection e) :=
  inferInstanceAs (Decidable (n.upcoming e ≠ some .threw))

/-- No handler is running and no command or call is outstanding. -/
structure AtRest (n : Node) : Prop where
  tasks : ∀ task ∈ n.tasks, task.state = .ended
  queues : ∀ cl ∈ n.pg.clients, cl.queue = []
  calls : ∀ call ∈ n.pg.calls, ∃ ok, call.status = .returned ok

instance (n : Node) : Decidable n.AtRest :=
  decidable_of_iff ((∀ task ∈ n.tasks, task.state = .ended) ∧ (∀ cl ∈ n.pg.clients, cl.queue = []) ∧
      ∀ call ∈ n.pg.calls, ∃ ok, call.status = .returned ok)
    ⟨fun h ↦ ⟨h.1, h.2.1, h.2.2⟩, fun h ↦ ⟨h.tasks, h.queues, h.calls⟩⟩

end Node

end PostgresChat
