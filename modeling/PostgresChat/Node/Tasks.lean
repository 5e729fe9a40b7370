import PostgresChat.Node.Calm

/-!
# What a step does to a handler

A handler moves in four ways: its statement runs, its INSERT begins or settles, it continues, and a
new one starts when a frame arrives. All other steps leave the handlers alone.
-/

namespace PostgresChat

open Execution

/-- The steps in which no handler starts, continues, or comes further with a statement. -/
def Event.passive : Event → Bool
  | .frame .. | .resume _ | .runQuery .. | .beginInsert _ | .insertSettles .. => false
  | _ => true

namespace Node

variable {n n' : Node} {k : ℕ}

theorem tasks_of_passive_step {e : Event} (he : e.passive = true)
    (hstep : n.step e = some n') : n'.tasks = n.tasks := by
  have hcleanup : ∀ (n : Node) (s : SocketId) (userId : UserId),
      (n.cleanupSocket s userId).tasks = n.tasks := fun n s userId ↦
    (cleanupSocket_frame n s userId).1.tasks
  cases e with
  | connect userId =>
    simp only [step, Option.dite_none_right_eq_some, Option.some.injEq] at hstep
    obtain ⟨-, rfl⟩ := hstep
    rfl
  | db d =>
    simp only [step, Option.bind_eq_bind, Option.bind_eq_some_iff] at hstep
    obtain ⟨⟨db, notes⟩, -, hstep⟩ := hstep
    cases hstep
    exact (Outputs.withDb (S := fun _ ↦ True) db notes).tasks
  | pg d =>
    simp only [step, Option.bind_eq_bind, Option.bind_eq_some_iff] at hstep
    obtain ⟨-, -, pg, -, hstep⟩ := hstep
    cases hstep
    rfl
  | deliver c =>
    simp only [step, Option.bind_eq_bind, Option.bind_eq_some_iff] at hstep
    obtain ⟨pg, -, hstep⟩ := hstep
    split at hstep
    · cases hstep
      exact (Outputs.onNotification (S := fun _ ↦ True) fun _ _ ↦ trivial).tasks
    · cases hstep
      rfl
  | flush =>
    simp only [step, Option.ite_none_right_eq_some, Option.some.injEq] at hstep
    obtain ⟨-, rfl⟩ := hstep
    exact (Outputs.flushRoomMessageBatches (S := fun _ ↦ True) fun _ _ ↦ trivial).tasks
  | immediate =>
    simp only [step] at hstep
    split at hstep
    · cases hstep
    · rename_i recipients frame rest _
      cases hstep
      exact (Outputs.sendToAll (S := fun _ ↦ True) recipients frame).tasks
  | heartbeat s =>
    simp only [step, Option.bind_eq_bind, Option.bind_eq_some_iff] at hstep
    obtain ⟨socket, -, -, -, hstep⟩ := hstep
    split at hstep
    · cases hstep
      rfl
    · cases hstep
      exact hcleanup _ _ _
  | pong s =>
    cases hstep
    rfl
  | socketError s =>
    simp only [step, Option.bind_eq_bind, Option.bind_eq_some_iff] at hstep
    obtain ⟨socket, -, -, -, hstep⟩ := hstep
    cases hstep
    exact hcleanup _ _ _
  | socketClosing s =>
    simp only [step, Option.bind_eq_bind, Option.bind_eq_some_iff] at hstep
    obtain ⟨socket, -, -, -, hstep⟩ := hstep
    cases hstep
    rfl
  | socketClose s =>
    simp only [step, Option.bind_eq_bind, Option.bind_eq_some_iff] at hstep
    obtain ⟨socket, -, -, -, hstep⟩ := hstep
    cases hstep
    exact hcleanup _ _ _
  | buffered s bytes =>
    cases hstep
    rfl
  | destroyChat =>
    cases hstep
    rfl
  | frame s frame => cases he
  | resume k => cases he
  | runQuery k fate => cases he
  | beginInsert k => cases he
  | insertSettles k lost => cases he

/-- A statement other than the INSERT comes to its end. -/
theorem ran_of_step {k : ℕ} {fate : Fate} (hstep : n.step (.runQuery k fate) = some n') :
    ∃ task stage q, n.tasks[k]? = some task ∧ task.state = .awaiting stage .query ∧
      stage.request task.userId n.pg.nodeId = .query q ∧ n' = n.runQuery k task stage q fate := by
  simp only [step, Option.bind_eq_bind, Option.bind_eq_some_iff] at hstep
  obtain ⟨task, hget, hstep⟩ := hstep
  split at hstep
  · cases hstep
  · rename_i stage _ hstate
    split at hstep
    · rename_i q hrequest
      cases hstep
      exact ⟨task, stage, q, hget, hstate, hrequest, rfl⟩
    · cases hstep
  · cases hstep

/-- What the promise of a statement settles to. -/
theorem tasks_runQuery (k : ℕ) (task : Task) (stage : Stage) (q : Query) (fate : Fate) :
    ∃ settled, (n.runQuery k task stage q fate).tasks =
        n.tasks.set k { task with state := .awaiting stage (.settled settled) } ∧
      ∀ result, settled = .resolved result → fate = .answered ∧
        ∃ db notes, n.db.exec q = some (db, result, notes) := by
  have hdb : ∀ db notes, (n.withDb db notes).tasks = n.tasks := fun db notes ↦
    (Outputs.withDb (S := fun _ ↦ True) db notes).tasks
  unfold Node.runQuery
  split
  · rename_i db result notes hexec
    refine ⟨.resolved result, by rw [← hdb db notes]; rfl, ?_⟩
    rintro _ ⟨⟩
    exact ⟨rfl, db, notes, hexec⟩
  · rename_i db result notes hexec
    exact ⟨.rejected, by rw [← hdb db notes]; rfl, by rintro _ ⟨⟩⟩
  · exact ⟨.rejected, rfl, by rintro _ ⟨⟩⟩

/-- How the state of handler `k` changes in a step. -/
inductive TaskMoves (n : Node) (e : Event) (k : ℕ) (task : Task) : TaskState → Prop
  | stays : TaskMoves n e k task task.state
  | ran (stage : Stage) (q : Query) (fate : Fate) (settled : Settled)
      (event : e = .runQuery k fate) (state : task.state = .awaiting stage .query)
      (request : stage.request task.userId n.pg.nodeId = .query q)
      (result : ∀ result, settled = .resolved result →
        fate = .answered ∧ ∃ db notes, n.db.exec q = some (db, result, notes)) :
    TaskMoves n e k task (.awaiting stage (.settled settled))
  | inserts (R : RoomId) (content : JsString) (promise promise' : Promise)
      (state : task.state = .awaiting (.sendInsert R content) promise)
      (moved : e = .beginInsert k ∧ promise = .query ∧
          (promise' = .inserting n.db.inserts.length ∨ promise' = .settled .rejected) ∨
        ∃ t settled, promise = .inserting t ∧ promise' = .settled settled) :
    TaskMoves n e k task (.awaiting (.sendInsert R content) promise')
  | continues (stage stage' : Stage) (promise promise' : Promise) (settled : Settled)
      (state : task.state = .awaiting stage promise) (settles : n.settledOf promise = some settled)
      (next : (stage.resume settled).next = .await stage')
      (pending : ∀ settled, promise' ≠ .settled settled)
      (asks : ∀ q, stage'.request task.userId n.pg.nodeId = .query q → promise' = .query) :
    TaskMoves n e k task (.awaiting stage' promise')
  | ends : TaskMoves n e k task .ended

/-- What a step does to the handlers: one of them moves, one starts, or nothing happens. -/
theorem tasks_of_step {e : Event} (hstep : n.step e = some n') :
    (∃ k task state, n.tasks[k]? = some task ∧ TaskMoves n e k task state ∧
        n'.tasks = n.tasks.set k { task with state := state }) ∨
      (∃ s socket frame, e = .frame s frame ∧ n.sockets[s]? = some socket ∧
        n'.tasks = n.tasks ++ [⟨s, socket.userId, firstState socket.userId frame⟩]) ∨
      n'.tasks = n.tasks := by
  by_cases hpassive : e.passive = true
  · exact Or.inr (Or.inr (tasks_of_passive_step hpassive hstep))
  · cases e with
    | frame s frame =>
      obtain ⟨socket, hsocket, -, hreceived⟩ := received_of_step hstep
      exact Or.inr (Or.inl ⟨s, socket, frame, rfl, hsocket, hreceived.tasks⟩)
    | resume k =>
      obtain ⟨task, stage, settled, hresumed⟩ := resumed_of_step hstep
      obtain ⟨promise, hstate, hsettled⟩ := hresumed.awaiting
      have htasks := hresumed.turned.tasks
      rw [(observeCheck_frame n k stage settled).1.tasks] at htasks
      refine Or.inl ⟨k, task, _, hresumed.get, ?_, htasks⟩
      cases hnext : (stage.resume settled).next with
      | await stage' =>
        refine .continues stage stage' promise _ settled hstate hsettled hnext
          (fun settled' ↦ ?_) fun q ↦ ?_
        · cases stage' <;> rintro ⟨⟩
        · cases stage' <;> rintro ⟨⟩ <;> rfl
      | returned => exact .ends
      | threw => exact .ends
    | runQuery k fate =>
      obtain ⟨task, stage, q, hget, hstate, hrequest, rfl⟩ := ran_of_step hstep
      obtain ⟨settled, htasks, hsettled⟩ := tasks_runQuery (n := n) k task stage q fate
      exact Or.inl
        ⟨k, task, _, hget, .ran stage q fate settled rfl hstate hrequest hsettled, htasks⟩
    | beginInsert k =>
      simp only [step, Option.bind_eq_bind, Option.bind_eq_some_iff] at hstep
      obtain ⟨task, hget, hstep⟩ := hstep
      split at hstep
      · rename_i roomId content hstate
        obtain rfl := Option.some.inj hstep
        rw [Node.beginInsert]
        split
        · rename_i db notes _
          have htasks : (n.withDb db notes).tasks = n.tasks :=
            (Outputs.withDb (S := fun _ ↦ True) db notes).tasks
          exact Or.inl ⟨k, task, _, hget,
            .inserts _ _ _ _ hstate (Or.inl ⟨rfl, rfl, Or.inl rfl⟩), by rw [← htasks]; rfl⟩
        · exact Or.inl ⟨k, task, _, hget,
            .inserts _ _ _ _ hstate (Or.inl ⟨rfl, rfl, Or.inr rfl⟩), rfl⟩
      · cases hstep
    | insertSettles k lost =>
      simp only [step, Option.bind_eq_bind, Option.bind_eq_some_iff] at hstep
      obtain ⟨task, hget, hstep⟩ := hstep
      split at hstep
      · rename_i roomId content t hstate
        simp only [Option.bind_eq_some_iff] at hstep
        obtain ⟨ins, -, -, -, hstep⟩ := hstep
        cases hstep
        exact Or.inl ⟨k, task, _, hget, .inserts _ _ _ _ hstate (Or.inr ⟨t, _, rfl, rfl⟩), rfl⟩
      · cases hstep
    | _ => exact absurd rfl hpassive

/-- A handler moves, or has just started. -/
theorem task_of_step {e : Event} (hstep : n.step e = some n') {task' : Task}
    (hget' : n'.tasks[k]? = some task') :
    (∃ task, n.tasks[k]? = some task ∧ task'.socket = task.socket ∧ task'.userId = task.userId ∧
        TaskMoves n e k task task'.state) ∨
      ∃ s socket frame, e = .frame s frame ∧ n.sockets[s]? = some socket ∧ k = n.tasks.length ∧
        task' = ⟨s, socket.userId, firstState socket.userId frame⟩ := by
  rcases tasks_of_step hstep with ⟨k₀, task₀, state, hget₀, hmoves, htasks⟩ |
    ⟨s, socket, frame, he, hsocket, htasks⟩ | htasks
  · rw [htasks] at hget'
    by_cases hk : k₀ = k
    · subst hk
      rw [List.getElem?_set_self (List.getElem?_eq_some_iff.mp hget₀).1] at hget'
      obtain rfl := Option.some.inj hget'
      exact Or.inl ⟨task₀, hget₀, rfl, rfl, hmoves⟩
    · rw [List.getElem?_set_ne hk] at hget'
      exact Or.inl ⟨task', hget', rfl, rfl, .stays⟩
  · rw [htasks] at hget'
    rcases Lists.getElem?_concat_eq_some.mp hget' with hget' | ⟨hk, htask⟩
    · exact Or.inl ⟨task', hget', rfl, rfl, .stays⟩
    · exact Or.inr ⟨s, socket, frame, he, hsocket, hk, htask⟩
  · exact Or.inl ⟨task', htasks ▸ hget', rfl, rfl, .stays⟩

theorem length_tasks_of_step {e : Event} (hstep : n.step e = some n') :
    n.tasks.length ≤ n'.tasks.length := by
  rcases tasks_of_step hstep with ⟨_, _, _, -, -, htasks⟩ | ⟨_, _, _, -, -, htasks⟩ | htasks <;>
    rw [htasks]
  · rw [List.length_set]
  · exact List.length_append ▸ Nat.le_add_right _ _

/-- No handler is forgotten. -/
theorem task_after_step {e : Event} (hstep : n.step e = some n') {task : Task}
    (hget : n.tasks[k]? = some task) : ∃ task', n'.tasks[k]? = some task' ∧
      task'.userId = task.userId ∧ TaskMoves n e k task task'.state := by
  have hlt := (List.getElem?_eq_some_iff.mp hget).1
  have hget' := List.getElem?_eq_getElem (hlt.trans_le (length_tasks_of_step hstep))
  rcases task_of_step hstep hget' with ⟨task₁, hget₁, -, hu, hmoves⟩ | ⟨_, _, _, -, -, hk, -⟩
  · obtain rfl := Option.some.inj (hget.symm.trans hget₁)
    exact ⟨_, hget', hu, hmoves⟩
  · omega

end Node

end PostgresChat
