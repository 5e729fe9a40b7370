import PostgresChat.Node.Coverage
import PostgresChat.Node.Underway

/-!
# Who is present in a room

A socket is in a room from when it is told `joined_room` until it sends `leave_room`. The database
compares room ids as UUIDs, so the spelling that a frame has for the room does not matter here.

`handleJoinRoom` writes the row of `presence` before it sends `joined_room`. In between, the socket
is entering the room: its upsert has run, and its handler has yet to continue. Apart from an upsert,
no step makes a socket attend a room (`attends_of_step`).
-/

namespace PostgresChat

open Execution PastTrace

/-- The room a socket is told it has joined. -/
def Observation.entered : Observation → Option (SocketId × Uuid)
  | .replied _ s (.joinedRoom R) => (Uuid.parse R).map (s, ·)
  | _ => none

/-- The room a socket asks to leave. -/
def Observation.exited : Observation → Option (SocketId × Uuid)
  | .leaveReceived _ s R => (Uuid.parse R).map (s, ·)
  | _ => none

/-- The room for which the upsert of a `join_room` has run, when the handler has not continued. -/
def Task.enters (task : Task) : Option Uuid :=
  match task.state with
  | .awaiting (.joinPresence R) (.settled (.resolved _)) => Uuid.parse R
  | _ => none

namespace Node

variable {n n' : Node} {s : SocketId} {u : UserId} {r : Uuid}

/-- The socket was told that it has joined the room, and has not asked to leave it since. -/
def InRoom (log : List Observation) (s : SocketId) (r : Uuid) : Prop :=
  Since (fun o : Observation ↦ o.entered = some (s, r))
    (fun o : Observation ↦ o.exited = some (s, r)) log

instance (log : List Observation) (s : SocketId) (r : Uuid) : Decidable (InRoom log s r) :=
  inferInstanceAs (Decidable (Since _ _ log))

/-- The socket is about to be told that it has joined the room. -/
def Entering (n : Node) (s : SocketId) (r : Uuid) : Prop :=
  ∃ task ∈ n.tasks, task.socket = s ∧ task.enters = some r

instance (n : Node) (s : SocketId) (r : Uuid) : Decidable (n.Entering s r) :=
  inferInstanceAs (Decidable (∃ task ∈ _, _))

/-- The socket is open, and is in the room or about to be. -/
def Attends (n : Node) (s : SocketId) (r : Uuid) : Prop :=
  n.isOpen s = true ∧ (InRoom n.log s r ∨ n.Entering s r)

instance (n : Node) (s : SocketId) (r : Uuid) : Decidable (n.Attends s r) :=
  inferInstanceAs (Decidable (_ ∧ _))

/-- A socket of the user attends the room. -/
def Shows (n : Node) (u : UserId) (r : Uuid) : Prop :=
  ∃ s < n.sockets.length, n.socketUsers[s]? = some u ∧ n.Attends s r

instance (n : Node) (u : UserId) (r : Uuid) : Decidable (n.Shows u r) :=
  inferInstanceAs (Decidable (∃ s < _, _ ∧ _))

/-- The upsert of a `join_room` of the socket runs, and is answered. -/
def UpsertsFor (n : Node) (e : Event) (s : SocketId) (r : Uuid) : Prop :=
  ∃ k task R, e = .runQuery k .answered ∧ n.tasks[k]? = some task ∧ task.socket = s ∧
    task.state = .awaiting (.joinPresence R) .query ∧ Uuid.parse R = some r ∧
    (n.db.exec (.upsertPresence task.userId R n.pg.nodeId)).isSome = true

/-! ## What a handler awaits -/

/-- A handler at the upsert of a `join_room` awaits no call of the LISTEN connection. -/
def UpsertsQueried (n : Node) : Prop :=
  ∀ task ∈ n.tasks, ∀ R id, task.state ≠ .awaiting (.joinPresence R) (.call id)

/-- A handler comes to another stage by continuing. -/
theorem eq_resume_of_stage_ne {e : Event} (hstep : n.step e = some n') {k : ℕ} {task task' : Task}
    (hget : n.tasks[k]? = some task) (hget' : n'.tasks[k]? = some task')
    (hne : task'.stage? ≠ task.stage?) : e = .resume k := by
  rcases handler_cases hstep with hidle | ⟨s, frame, socket, -, -, hreceived⟩ |
    ⟨k₀, task₀, stage, settled, rfl, hresumed⟩
  · have hkey := congrArg (·[k]?) hidle.settles.handlers
    simp only [List.getElem?_map, hget, hget', Option.map_some, Option.some.injEq] at hkey
    exact absurd (congrArg Prod.snd hkey) hne
  · rw [hreceived.tasks, List.getElem?_append_left (List.getElem?_eq_some_iff.mp hget).1,
      hget] at hget'
    exact absurd (congrArg Task.stage? (Option.some.inj hget')).symm hne
  · by_contra hk
    have hk : k₀ ≠ k := fun h ↦ hk (congrArg Event.resume h)
    rw [hresumed.turned.tasks, (observeCheck_frame n k₀ stage settled).1.tasks,
      List.getElem?_set_ne hk, hget] at hget'
    exact hne (congrArg Task.stage? (Option.some.inj hget')).symm

/-- **Step lemma.** -/
theorem UpsertsQueried.step (h : n.UpsertsQueried) {e : Event} (hstep : n.step e = some n') :
    n'.UpsertsQueried := by
  intro task' htask' R id hstate'
  obtain ⟨k, hget'⟩ := List.mem_iff_getElem?.mp htask'
  rcases task_of_step hstep hget' with
    ⟨task, hget, -, -, hmoves⟩ | ⟨s, socket, frame, -, -, -, rfl⟩
  · by_cases hstage : task'.stage? = task.stage?
    · rw [hstate'] at hmoves
      generalize hpromise : TaskState.awaiting (.joinPresence R) (.call id) = state' at hmoves
      cases hmoves with
      | stays => exact h task (List.mem_of_getElem? hget) R id hpromise.symm
      | continues stage stage' promise promise' settled state settles next pending =>
        -- A turn does not end at the stage it begins at.
        cases hpromise
        rw [stage?_eq hstate', stage?_eq state, Option.some.injEq] at hstage
        have := Stage.turnsLeft_resume next
        rw [hstage] at this
        exact absurd this (Nat.lt_irrefl _)
      | _ => cases hpromise
    · obtain rfl := eq_resume_of_stage_ne hstep hget hget' hstage
      obtain ⟨task₀, stage, settled, hresumed⟩ := resumed_of_step hstep
      rw [hresumed.turned.tasks, (observeCheck_frame n k stage settled).1.tasks,
        List.getElem?_set_self (List.getElem?_eq_some_iff.mp hresumed.get).1] at hget'
      obtain rfl := Option.some.inj hget'
      cases hnext : (stage.resume settled).next with
      | await stage' =>
        rw [hnext] at hstate'
        cases stage' <;> cases hstate'
      | returned =>
        rw [hnext] at hstate'
        cases hstate'
      | threw =>
        rw [hnext] at hstate'
        cases hstate'
  · rw [firstState.eq_def] at hstate'
    dsimp only at hstate'
    split at hstate' <;> cases hstate'

/-! ## Attending -/

/-- A socket there is does not open again. -/
theorem isOpen_of_step {e : Event} (hstep : n.step e = some n') (hs : s < n.sockets.length)
    (hopen : n'.isOpen s = true) : n.isOpen s = true := by
  have hsame : n'.sockets = n.sockets → n.isOpen s = true := by
    intro hsockets
    rwa [isOpen, hsockets] at hopen
  cases stepped_of_step hstep with
  | connected userId =>
    change decide (((n.sockets ++ _)[s]?.map Socket.readyState) = _) = true at hopen
    rwa [List.getElem?_append_left hs] at hopen
  | received s' frame socket _ _ hreceived => exact hsame hreceived.sockets
  | resumed k task stage settled _ hresumed =>
    exact hsame (hresumed.turned.sockets.trans (observeCheck_frame n k stage settled).1.sockets)
  | marked _ s' _ _ hmarked => exact hmarked.quiet.opened s hopen
  | cleaned _ s' _ _ _ hcleaned => exact hcleaned.opened s hopen
  | quiet _ _ _ hquiet => exact hquiet.opened s hopen

/-- Only a `join_room` whose upsert has been answered ends in `joined_room`. -/
theorem UpsertsQueried.entering (h : n.UpsertsQueried) {k k' : ℕ} {task : Task} {stage : Stage}
    {settled : Settled} (hresumed : Resumed n n' k task stage settled) {send : Send}
    (hsend : (stage.resume settled).send = some send)
    (hentered : (Observation.replied k' task.socket send.frame).entered = some (s, r)) :
    n.Entering s r := by
  obtain ⟨promise, hstate, hsettled⟩ := hresumed.awaiting
  have htask := List.mem_of_getElem? hresumed.get
  cases hframe : send.frame with
  | joinedRoom R =>
    obtain ⟨rfl, result, rfl⟩ := joinPresence_of_acks hsend hframe
    rw [hframe] at hentered
    obtain ⟨_, hr, hpair⟩ := Option.map_eq_some_iff.mp hentered
    cases hpair
    refine ⟨task, htask, rfl, ?_⟩
    cases promise with
    | settled settled =>
      cases hsettled
      rw [Task.enters, hstate]
      exact hr
    | call id => exact absurd hstate (h task htask R id)
    | query => cases hsettled
    | inserting t => cases hsettled
  | _ =>
    rw [hframe] at hentered
    cases hentered

/-- A socket is told that it has joined when it was about to be. -/
theorem UpsertsQueried.inRoom_of_step (h : n.UpsertsQueried) {e : Event}
    (hstep : n.step e = some n') (hroom : InRoom n'.log s r) :
    InRoom n.log s r ∨ n.Entering s r := by
  have hsilent : ∀ {os : List Observation}, n'.log = n.log ++ os →
      (∀ o ∈ os, o.entered = none) → InRoom n.log s r := by
    intro os hlog hos
    rw [InRoom, hlog] at hroom
    refine hroom.of_append fun o ho ↦ ?_
    rw [hos o ho]
    rintro ⟨⟩
  rcases handler_cases hstep with hidle | ⟨s', frame, socket, -, -, hreceived⟩ |
    ⟨k, task, stage, settled, -, hresumed⟩
  · obtain ⟨os, hlog, hos⟩ := hidle.log
    refine Or.inl (hsilent hlog fun o ho ↦ ?_)
    have := hos o ho
    cases o <;> first | rfl | cases this
  · obtain ⟨os, hlog, hos⟩ := hreceived.log_cases
    refine Or.inl (hsilent hlog fun o ho ↦ ?_)
    rcases hos o ho with ⟨_, -, rfl⟩ | ⟨_, -, rfl⟩ | ⟨_, ⟨_, _, rfl⟩, rfl⟩ <;> rfl
  · obtain ⟨os, hlog, hos⟩ := hresumed.log
    by_cases hjoined : ∃ o ∈ os, o.entered = some (s, r)
    · obtain ⟨o, ho, hentered⟩ := hjoined
      rcases hos o ho with rfl | ⟨send, hsend, rfl⟩
      · cases hentered
      · exact Or.inr (h.entering hresumed hsend hentered)
    · rw [InRoom, hlog] at hroom
      exact Or.inl (hroom.of_append fun o ho hentered ↦ hjoined ⟨o, ho, hentered⟩)

/-- A socket comes to be about to be told so when the upsert of its `join_room` runs. -/
theorem entering_of_step {e : Event} (hstep : n.step e = some n') (h : n'.Entering s r) :
    n.Entering s r ∨ n.UpsertsFor e s r := by
  obtain ⟨task', htask', rfl, henters⟩ := h
  obtain ⟨k, hget'⟩ := List.mem_iff_getElem?.mp htask'
  rw [Task.enters] at henters
  rcases task_of_step hstep hget' with
    ⟨task, hget, hsocket, -, hmoves⟩ | ⟨s', socket, frame, -, -, -, rfl⟩
  · generalize task'.state = state' at henters hmoves
    cases hmoves with
    | stays => exact Or.inl ⟨task, List.mem_of_getElem? hget, hsocket.symm, henters⟩
    | ran stage q fate settled event state request result =>
      split at henters
      · rename_i R rows heq
        cases heq
        obtain ⟨rfl, db, notes, hexec⟩ := result rows rfl
        cases request
        exact Or.inr ⟨k, task, R, event, hget, hsocket.symm, state, henters, by rw [hexec]; rfl⟩
      · cases henters
    | inserts => cases henters
    | continues stage stage' promise promise' settled state settles next pending =>
      split at henters
      · rename_i heq
        exact absurd (TaskState.awaiting.inj heq).2 (pending _)
      · cases henters
    | ends => cases henters
  · rw [firstState] at henters
    split at henters
    · rename_i heq
      split at heq <;> cases heq
    · cases henters

/-- Sockets and handlers are there before a socket attends a room. -/
theorem lt_length_of_attends (hbounded : Bounded n) {e : Event}
    (hlog : InRoom n.log s r ∨ n.Entering s r ∨ n.UpsertsFor e s r) : s < n.sockets.length := by
  have htask : ∀ {task : Task}, task ∈ n.tasks → task.socket = s → s < n.sockets.length := by
    rintro task htask rfl
    exact hbounded.tasks task.key (List.mem_map_of_mem htask)
  rcases hlog with hroom | ⟨task, hmem, hs, -⟩ | ⟨k, task, R, -, hget, hs, -⟩
  · obtain ⟨o, ho, hentered⟩ := hroom.exists_mem
    rw [Observation.entered.eq_def] at hentered
    split at hentered
    · obtain ⟨_, -, hpair⟩ := Option.map_eq_some_iff.mp hentered
      cases hpair
      exact hbounded.replied _ _ _ ho
    · cases hentered
  · exact htask hmem hs
  · exact htask (List.mem_of_getElem? hget) hs

/-- **Step lemma.** A socket comes to attend a room by an upsert only. -/
theorem attends_of_step (hbounded : Bounded n) (hqueried : n.UpsertsQueried) {e : Event}
    (hstep : n.step e = some n') (h : n'.Attends s r) :
    s < n.sockets.length ∧ (n.Attends s r ∨ n.isOpen s = true ∧ n.UpsertsFor e s r) := by
  have hcases : InRoom n.log s r ∨ n.Entering s r ∨ n.UpsertsFor e s r := by
    rcases h.2 with hroom | hentering
    · exact (hqueried.inRoom_of_step hstep hroom).imp_right Or.inl
    · exact Or.inr (entering_of_step hstep hentering)
  have hlt := lt_length_of_attends hbounded hcases
  have hopen := isOpen_of_step hstep hlt h.1
  exact ⟨hlt, hcases.elim (fun hroom ↦ Or.inl ⟨hopen, Or.inl hroom⟩) fun h ↦
    h.imp (fun hentering ↦ ⟨hopen, Or.inr hentering⟩) fun hupserts ↦ ⟨hopen, hupserts⟩⟩

/-- A handler that is not about to tell its socket anything may go on. -/
theorem Entering.of_set (h : n.Entering s r) {k : ℕ} {task task' : Task}
    (hget : n.tasks[k]? = some task) (henters : task.enters = none)
    (htasks : n'.tasks = n.tasks.set k task') : n'.Entering s r := by
  obtain ⟨task₁, hmem, hs, hr⟩ := h
  obtain ⟨k₁, hget₁⟩ := List.mem_iff_getElem?.mp hmem
  refine ⟨task₁, List.mem_of_getElem? (i := k₁) ?_, hs, hr⟩
  rw [htasks, List.getElem?_set_ne, hget₁]
  rintro rfl
  obtain rfl := Option.some.inj (hget.symm.trans hget₁)
  rw [henters] at hr
  cases hr

theorem Attends.of_outputs {S : RoomId → Prop} (h : n.Attends s r)
    (hsockets : n'.sockets = n.sockets)
    (hlog : ∃ os, n'.log = n.log ++ os ∧ ∀ o ∈ os, n.Output S o)
    (hentering : n.Entering s r → n'.Entering s r) : n'.Attends s r := by
  obtain ⟨os, hlog, hos⟩ := hlog
  refine ⟨by rw [isOpen, hsockets]; exact h.1, h.2.imp (fun hroom ↦ ?_) hentering⟩
  rw [InRoom, hlog, since_append_of_neutral fun o ho ↦ ?_]
  · exact hroom
  · have := hos o ho
    cases o <;> first | exact this.elim | exact ⟨by rintro ⟨⟩, by rintro ⟨⟩⟩

/-- A statement makes no socket leave a room. -/
theorem Shows.of_statement (h : n.Shows u r) {e : Event}
    (he : (∃ k fate, e = .runQuery k fate) ∨ ∃ d, e = .db d) (hstep : n.step e = some n') :
    n'.Shows u r := by
  obtain ⟨s, hlt, hu, hattends⟩ := h
  suffices hsame : n'.sockets = n.sockets ∧ n'.Attends s r by
    exact ⟨s, by rwa [hsame.1], by rwa [socketUsers_of_eq hsame.1], hsame.2⟩
  have hdb : ∀ db notes, Outputs (fun _ ↦ False) n (n.withDb db notes) := Outputs.withDb
  rcases he with ⟨k, fate, rfl⟩ | ⟨d, rfl⟩
  · obtain ⟨task, stage, q, hget, hstate, -, rfl⟩ := ran_of_step hstep
    have hset : ∀ {n₁ : Node} {promise : Promise}, Outputs (fun _ ↦ False) n n₁ →
        (n₁.setPromise k task stage promise).sockets = n.sockets ∧
          (n₁.setPromise k task stage promise).Attends s r := by
      intro n₁ promise hout
      refine ⟨hout.sockets, hattends.of_outputs hout.sockets hout.log fun hentering ↦ ?_⟩
      have htasks : (n₁.setPromise k task stage promise).tasks =
          n.tasks.set k { task with state := .awaiting stage promise } := by
        rw [← hout.tasks]
        rfl
      refine hentering.of_set hget ?_ htasks
      rw [Task.enters, hstate]
      cases stage <;> rfl
    unfold Node.runQuery
    split
    · exact hset (hdb _ _)
    · exact hset (hdb _ _)
    · exact hset (Outputs.refl _ n)
  · simp only [step, Option.bind_eq_bind, Option.bind_eq_some_iff] at hstep
    obtain ⟨⟨db, notes⟩, -, hstep⟩ := hstep
    cases hstep
    have hout := hdb db notes
    refine ⟨hout.sockets, hattends.of_outputs hout.sockets hout.log ?_⟩
    rw [Entering, Entering, hout.tasks]
    exact id

/-! ## What every run keeps -/

/-- Handlers belong to sockets there are and work for their users, and an upsert is awaited as a
statement. -/
structure Tracked (n : Node) : Prop where
  bounded : n.Bounded
  queried : n.UpsertsQueried
  handlers : ∀ task ∈ n.tasks, n.socketUsers[task.socket]? = some task.userId

theorem tracked_start (nodeId : JsString) : (start nodeId).Tracked where
  bounded := bounded_start nodeId
  queried := by rintro task ⟨⟩
  handlers := by rintro task ⟨⟩

theorem Tracked.step (h : n.Tracked) {e : Event} (hstep : n.step e = some n') : n'.Tracked :=
  ⟨h.bounded.step hstep, h.queried.step hstep, handlers_of_step hstep h.handlers⟩

/-- The user of a socket that attends a room comes to have a row by an upsert only. -/
theorem Tracked.shows_of_step (h : n.Tracked) {e : Event} (hstep : n.step e = some n')
    (hshows : n'.Shows u r) :
    n.Shows u r ∨ ∃ k task R, e = .runQuery k .answered ∧ n.tasks[k]? = some task ∧
      task.userId = u ∧ task.state = .awaiting (.joinPresence R) .query ∧ Uuid.parse R = some r ∧
      (n.db.exec (.upsertPresence u R n.pg.nodeId)).isSome = true := by
  obtain ⟨s, -, hu', hattends'⟩ := hshows
  obtain ⟨hlt, hattends⟩ := attends_of_step h.bounded h.queried hstep hattends'
  have hu : n.socketUsers[s]? = some u := by
    obtain ⟨l, hl⟩ := socketUsers_of_step hstep
    rwa [← hl, List.getElem?_append_left (by rwa [socketUsers, List.length_map])] at hu'
  rcases hattends with hattends | ⟨-, k, task, R, he, hget, rfl, hstate, hr, hexec⟩
  · exact Or.inl ⟨s, hlt, hu, hattends⟩
  · obtain rfl := Option.some.inj ((h.handlers task (List.mem_of_getElem? hget)).symm.trans hu)
    exact Or.inr ⟨k, task, R, he, hget, rfl, hstate, hr, hexec⟩

end Node

end PostgresChat
