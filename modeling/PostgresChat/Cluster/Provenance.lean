import PostgresChat.Cluster.Authorised
import PostgresChat.Cluster.Delivery
import PostgresChat.Database.Ledger
import PostgresChat.Node.Underway

/-!
# Where a message comes from

A message is posted by a `send_message` frame, or by a call of `postMessage`. Between the request
and the row of `messages` lie a validator, the check of membership, an INSERT with two triggers, and
a commit, and any of them may fail or be overtaken by others. `Traced` is the invariant that ties
the ends together. A request that is to post a message has been asked to (`asked`), an INSERT has
been begun by such a request (`inserts`), and none is begun by two requests, or two by one: a
request that has begun its INSERT is `Spent`. A call that is answered with a message has begun the
INSERT that has committed it (`answers`).
-/

namespace PostgresChat

open Execution

/-! ## Requests to post a message -/

/-- The message that a handler is to post. -/
def Stage.posts : Stage → Option (RoomId × JsString)
  | .sendMember R content | .sendInsert R content => some (R, content)
  | _ => none

def HttpStage.posts : HttpStage → Option (RoomId × JsString)
  | .postMember R content | .postInsert R content => some (R, content)
  | _ => none

def TaskState.posts : TaskState → Option (RoomId × JsString)
  | .awaiting stage _ => stage.posts
  | .ended => none

def HttpState.posts : HttpState → Option (RoomId × JsString)
  | .awaiting stage _ => stage.posts
  | .responded _ => none

/-- The INSERT of a handler has begun, or there will be none. -/
def TaskState.spent : TaskState → Bool
  | .awaiting (.sendInsert _ _) promise => promise ≠ .query
  | .awaiting _ _ => false
  | .ended => true

def HttpState.spent : HttpState → Bool
  | .awaiting (.postInsert _ _) promise => promise ≠ .query
  | .awaiting _ _ => false
  | .responded _ => true

namespace Node

variable {n n' : Node} {k : ℕ} {task task' : Task} {R : RoomId} {content : JsString}

/-- A handler is to post what the frame has asked for. -/
theorem posts_of_step {e : Event} (hstep : n.step e = some n') (hget' : n'.tasks[k]? = some task')
    (hposts : task'.state.posts = some (R, content)) :
    (∃ task, n.tasks[k]? = some task ∧ task.userId = task'.userId ∧
        task.state.posts = some (R, content)) ∨
      ∃ s socket payload, e = .frame s (.sendMessage payload) ∧ n.sockets[s]? = some socket ∧
        k = n.tasks.length ∧ socket.userId = task'.userId ∧ payload.roomId = R ∧
        payload.content = content := by
  rcases task_of_step hstep hget' with
    ⟨task, hget, -, hu, hmoves⟩ | ⟨s, socket, frame, rfl, hsocket, hk, rfl⟩
  · refine Or.inl ⟨task, hget, hu.symm, ?_⟩
    generalize task'.state = state' at hposts hmoves
    cases hmoves with
    | stays => exact hposts
    | ran stage q fate settled event state => rwa [state]
    | inserts R' content' promise promise' state => rwa [state]
    -- After the check the handler goes on with the text it was called with.
    | continues stage stage' promise promise' settled state settles next =>
      rw [state]
      rcases settled with _ | _
      · rcases stage with _ | ⟨_, lastSeenSeq⟩ | _ | _ | _ | _ | _ | _ | _ | _ | _
        case joinSubscribe => cases lastSeenSeq <;> cases next <;> cases hposts
        all_goals
          simp only [Stage.resume, Stage.proceed] at next
          try split at next
          all_goals cases next
        all_goals exact hposts
      · cases next
    | ends => cases hposts
  · refine Or.inr ⟨s, socket, ?_⟩
    by_cases hu : socket.userId = []
    · simp only [firstState, handleFrame, hu, if_true, TaskState.posts] at hposts
      cases hposts
    · cases frame with
      | sendMessage payload =>
        simp only [firstState, handleFrame, hu, if_false, handleSendMessage_eq] at hposts
        cases hposts
        exact ⟨payload, rfl, hsocket, hk, rfl, rfl, rfl⟩
      | _ =>
        simp only [firstState, handleFrame, hu, if_false] at hposts
        cases hposts

/-- What is spent stays so. -/
theorem spent_of_step {e : Event} (hstep : n.step e = some n') (hget : n.tasks[k]? = some task)
    (hspent : task.state.spent = true) :
    ∃ task', n'.tasks[k]? = some task' ∧ task'.state.spent = true := by
  obtain ⟨task', hget', -, hmoves⟩ := task_after_step hstep hget
  refine ⟨task', hget', ?_⟩
  generalize task'.state = state' at hmoves
  cases hmoves with
  | stays => exact hspent
  | ran stage q fate settled event state request =>
    rw [state] at hspent
    cases stage <;> cases hspent
  | inserts R' content' promise promise' state moved =>
    rcases moved with ⟨-, -, rfl | rfl⟩ | ⟨t, settled, -, rfl⟩ <;> rfl
  | continues stage stage' promise promise' settled state settles next =>
    rw [state] at hspent
    cases stage with
    | sendInsert => cases settled <;> cases next
    | _ => cases hspent
  | ends => rfl

/-- A handler begins one INSERT. -/
theorem spent_of_beginInsert (hstep : n.step (.beginInsert k) = some n') :
    (∃ task, n.tasks[k]? = some task ∧ task.state.spent = false) ∧
      ∃ task', n'.tasks[k]? = some task' ∧ task'.state.spent = true := by
  simp only [step, Option.bind_eq_bind, Option.bind_eq_some_iff] at hstep
  obtain ⟨task, hget, hstep⟩ := hstep
  have hlt := (List.getElem?_eq_some_iff.mp hget).1
  split at hstep
  · rename_i roomId content hstate
    obtain rfl := Option.some.inj hstep
    refine ⟨⟨task, hget, by rw [hstate]; rfl⟩, ?_⟩
    rw [Node.beginInsert]
    split
    · rename_i db notes _
      have htasks : (n.withDb db notes).tasks = n.tasks :=
        (Outputs.withDb (S := fun _ ↦ True) db notes).tasks
      exact ⟨_, List.getElem?_set_self (htasks ▸ hlt), rfl⟩
    · exact ⟨_, List.getElem?_set_self hlt, rfl⟩
  · cases hstep

end Node

namespace Cluster

variable {c c' : Cluster} {q q' : RequestId} {u u' : UserId} {R : RoomId} {content : JsString}
  {t t' k : ℕ}

/-- The message that a request is to post, and as whom. -/
def posts (c : Cluster) : RequestId → Option (UserId × RoomId × JsString)
  | .frame i k => (c.nodes[i]?.bind fun n ↦ n.tasks[k]?).bind fun task ↦
      task.state.posts.map (task.userId, ·)
  | .call k => c.calls[k]?.bind fun call ↦ call.state.posts.map (call.userId, ·)

/-- The request has been made, and begins no INSERT any more. -/
def Spent (c : Cluster) : RequestId → Prop
  | .frame i k => ∃ n task, c.nodes[i]? = some n ∧ n.tasks[k]? = some task ∧
      task.state.spent = true
  | .call k => ∃ call, c.calls[k]? = some call ∧ call.state.spent = true

/-- A client asks, as `u`, for the message `content` in the room it calls `R`: by a frame whose
payload the validator accepts, or by a call of `postMessage`. -/
def Asks (q : RequestId) (u : UserId) (R : RoomId) (content : JsString) (c : Cluster) :
    ClusterEvent → Prop
  | .node i (.frame s (.sendMessage payload)) => ∃ n socket, c.nodes[i]? = some n ∧
      n.sockets[s]? = some socket ∧ q = .frame i n.tasks.length ∧ socket.userId = u ∧
      payload.roomId = R ∧ payload.content = content
  | .request u' (.postMessage R' content') =>
      q = .call c.calls.length ∧ u' = u ∧ R' = R ∧ content' = content
  | _ => False

/-! ## One step -/

/-- A node after a step, given the one before. -/
theorem node_after (hagrees : c.Agrees) {e : ClusterEvent} (hstep : c.step e = some c') {i : ℕ}
    {n : Node} (hget : c.nodes[i]? = some n) : ∃ n', c'.nodes[i]? = some n' ∧
      (n' = n ∨ ∃ e', n.step e' = some n') := by
  have hlt : i < c'.nodes.length :=
    (length_nodes_of_step hstep).symm ▸ (List.getElem?_eq_some_iff.mp hget).1
  have hget' := List.getElem?_eq_getElem hlt
  obtain ⟨n₁, hget₁, -, -, hmoves⟩ := hagrees.node_before hstep hget'
  obtain rfl := Option.some.inj (hget.symm.trans hget₁)
  exact ⟨_, hget', hmoves⟩

/-- A request is to post what it has been asked to. -/
theorem posts_of_step (hagrees : c.Agrees) {e : ClusterEvent} (hstep : c.step e = some c')
    (hposts : c'.posts q = some (u, R, content)) :
    c.posts q = some (u, R, content) ∨ Asks q u R content c e := by
  cases q with
  | frame i k =>
    simp only [posts, Option.bind_eq_some_iff, Option.map_eq_some_iff, Prod.mk.injEq] at hposts
    obtain ⟨task', ⟨n', hn', htask'⟩, ⟨_, _⟩, hposts, rfl, heq⟩ := hposts
    cases heq
    obtain ⟨n, hn, -, -, rfl | ⟨e', he, hstep'⟩ | ⟨d, -, hstep'⟩⟩ := hagrees.node_cases hstep hn'
    · left
      rw [posts, hn, Option.bind_some, htask', Option.bind_some, hposts]
      rfl
    · rcases Node.posts_of_step hstep' htask' hposts with
        ⟨task, htask, hu, hposts⟩ | ⟨s, socket, payload, rfl, hsocket, rfl, hu, hR, hcontent⟩
      · left
        rw [posts, hn, Option.bind_some, htask, Option.bind_some, hposts, hu]
        rfl
      · right
        rw [he]
        exact ⟨n, socket, hn, hsocket, rfl, hu, hR, hcontent⟩
    · rcases Node.posts_of_step hstep' htask' hposts with
        ⟨task, htask, hu, hposts⟩ | ⟨_, _, _, h, -⟩
      · left
        rw [posts, hn, Option.bind_some, htask, Option.bind_some, hposts, hu]
        rfl
      · cases h
  | call k =>
    simp only [posts, Option.bind_eq_some_iff, Option.map_eq_some_iff, Prod.mk.injEq] at hposts
    obtain ⟨call', hcall', ⟨_, _⟩, hposts, rfl, heq⟩ := hposts
    cases heq
    rcases call_of_step hstep hcall' with
      ⟨call, hcall, hu, hmoves⟩ | ⟨userId, request, rfl, rfl, rfl⟩
    · left
      suffices hold : call.state.posts = some (R, content) by
        rw [posts, hcall, Option.bind_some, hold, hu]
        rfl
      generalize call'.state = state' at hposts hmoves
      cases hmoves with
      | stays => exact hposts
      | ran stage fate event state => rwa [state]
      | inserts R' content' promise promise' state => rwa [state]
      | continues stage stage' settled state next =>
        rw [state]
        rcases settled with result | _
        · cases stage with
          | postMember R' content' =>
            rw [HttpStage.resume, HttpStage.proceed] at next
            split at next <;> cases next
            exact hposts
          | joinRoom R' =>
            rw [HttpStage.resume, HttpStage.proceed] at next
            split at next <;> cases next
            cases hposts
          | _ => cases next
        · cases next
      | responds => cases hposts
    · right
      cases request with
      | postMessage R' content' =>
        cases hposts
        exact ⟨rfl, rfl, rfl, rfl⟩
      | _ => cases hposts

/-- A request waits to begin the INSERT of the message that it is to post. -/
theorem posts_of_waitsFor (h : c.waitsFor q = some (.insertMessage R u content)) :
    c.posts q = some (u, R, content) := by
  cases q with
  | frame i k =>
    simp only [waitsFor, Option.bind_eq_some_iff] at h
    obtain ⟨n, hn, task, htask, h⟩ := h
    rw [Task.statement] at h
    split at h
    · rename_i stage hstate
      rw [posts, hn, Option.bind_some, htask, Option.bind_some, hstate]
      cases stage <;> cases h
      rfl
    · cases h
  | call k =>
    rw [waitsFor, query?, Option.bind_assoc, Option.bind_eq_some_iff] at h
    obtain ⟨call, hcall, h⟩ := h
    rw [HttpCall.statement] at h
    split at h
    · rename_i stage hstate
      rw [posts, hcall, Option.bind_some, hstate]
      cases stage <;> cases h
      rfl
    · cases h

theorem Spent.step (h : c.Spent q) (hagrees : c.Agrees) {e : ClusterEvent}
    (hstep : c.step e = some c') : c'.Spent q := by
  cases q with
  | frame i k =>
    obtain ⟨n, task, hn, htask, hspent⟩ := h
    obtain ⟨n', hn', rfl | ⟨e', hstep'⟩⟩ := node_after hagrees hstep hn
    · exact ⟨n', task, hn', htask, hspent⟩
    · obtain ⟨task', htask', hspent'⟩ := Node.spent_of_step hstep' htask hspent
      exact ⟨n', task', hn', htask', hspent'⟩
  | call k =>
    obtain ⟨call, hcall, hspent⟩ := h
    obtain ⟨call', hcall', -, hmoves⟩ := call_after_step hstep hcall
    refine ⟨call', hcall', ?_⟩
    generalize call'.state = state' at hmoves
    cases hmoves with
    | stays => exact hspent
    | ran stage fate event state =>
      rw [state] at hspent
      cases stage <;> cases hspent
    | inserts R' content' promise promise' state moved =>
      rcases moved with ⟨-, -, ⟨-, rfl⟩ | rfl⟩ | ⟨t, ins, lost, -, -, rfl⟩ <;> rfl
    | continues stage stage' settled state next =>
      rw [state] at hspent
      cases stage with
      | postInsert => cases settled <;> cases next
      | _ => cases hspent
    | responds => rfl

/-- A request begins one INSERT. -/
theorem spent_of_beginsInsert {e : ClusterEvent} (h : BeginsInsert q u t c e)
    (hstep : c.step e = some c') : ¬ c.Spent q ∧ c'.Spent q := by
  obtain ⟨horigin, -, -, r, content, hd⟩ := h
  obtain ⟨c₁, hmove, hact⟩ := Option.bind_eq_some_iff.mp hstep
  cases e with
  | node i e' =>
    obtain ⟨-, n, n', hn, hstep', rfl⟩ := act_node hact
    cases e' with
    | beginInsert k =>
      cases horigin
      obtain ⟨⟨task, htask, hfresh⟩, task', htask', hspent⟩ := Node.spent_of_beginInsert hstep'
      refine ⟨?_, n', task', ?_, htask', hspent⟩
      · rintro ⟨n₁, task₁, hn₁, htask₁, hspent₁⟩
        obtain rfl := Option.some.inj (hn.symm.trans hn₁)
        obtain rfl := Option.some.inj (htask.symm.trans htask₁)
        exact Bool.false_ne_true (hfresh.symm.trans hspent₁)
      · have hlength : c₁.nodes.length = c.nodes.length := by
          rcases moved_cases hmove with ⟨-, rfl⟩ | ⟨_, _, _, -, -, rfl⟩
          · rfl
          · exact List.length_map _
        exact List.getElem?_set_self (hlength ▸ (List.getElem?_eq_some_iff.mp hn).1)
    | runQuery k fate =>
      obtain ⟨n₁, -, hd⟩ := Option.bind_eq_some_iff.mp hd
      obtain ⟨stmt, -, hd⟩ := Option.bind_eq_some_iff.mp hd
      cases query_of_queryEvent hd
    | _ => cases horigin
  | runStatement k fate =>
    obtain ⟨stmt, -, hd⟩ := Option.bind_eq_some_iff.mp hd
    cases query_of_queryEvent hd
  | beginInsert k =>
    cases horigin
    have hcalls : c₁.calls = c.calls := by
      rcases moved_cases hmove with ⟨-, rfl⟩ | ⟨_, _, _, -, -, rfl⟩ <;> rfl
    simp only [act, Option.bind_eq_bind, Option.bind_eq_some_iff] at hact
    obtain ⟨call, hcall, hact⟩ := hact
    split at hact <;> cases hact
    rename_i roomId content' hstate
    have hlt := (List.getElem?_eq_some_iff.mp hcall).1
    refine ⟨?_, _, List.getElem?_set_self (hcalls ▸ hlt), ?_⟩
    · rintro ⟨call₁, hcall₁, hspent₁⟩
      obtain rfl := Option.some.inj (hcall.symm.trans hcall₁)
      rw [hstate] at hspent₁
      cases hspent₁
    · dsimp only
      split <;> rfl
  | _ => cases horigin

/-! ## The invariant -/

/-- What a run may have seen of messages. -/
inductive Deed where
  | asks (q : RequestId) (u : UserId) (R : RoomId) (content : JsString)
  | begins (q : RequestId) (u : UserId) (t : ℕ)

/-- A step in which it is seen. -/
def Deed.Seen : Deed → Cluster → ClusterEvent → Prop
  | .asks q u R content => Asks q u R content
  | .begins q u t => BeginsInsert q u t

variable {P : Deed → Prop}

/-- Call `k` has begun an INSERT that has committed `row`. -/
def Commits (P : Deed → Prop) (db : Db) (k : ℕ) (row : MessageRow) : Prop :=
  ∃ u t ins, P (.begins (.call k) u t) ∧ db.inserts[t]? = some ins ∧ ins.stage = .committed row

/-- The INSERT that a call waits for is its own, and so is the message it is answered with. -/
def Vouched (P : Deed → Prop) (db : Db) (k : ℕ) : HttpState → Prop
  | .awaiting (.postInsert _ _) (.inserting t) => ∃ u, P (.begins (.call k) u t)
  | .awaiting (.postInsert _ _) (.settled (.resolved result)) =>
    ∃ row, result = .messages [row] ∧ Commits P db k row
  | .responded (.message answer) => ∃ row, answer = some row ∧ Commits P db k row
  | _ => True

/-- Messages, INSERTs and requests belong together. -/
structure Traced (P : Deed → Prop) (c : Cluster) : Prop where
  agrees : c.Agrees
  recorded : c.db.Recorded
  asked : ∀ q u R content, c.posts q = some (u, R, content) → P (.asks q u R content)
  inserts : ∀ (t : ℕ) (ins : Insert), c.db.inserts[t]? = some ins → ∃ q R,
    Uuid.parse R = some ins.roomId ∧ P (.asks q ins.userId R ins.content) ∧
      P (.begins q ins.userId t)
  /-- An INSERT is begun by one request. -/
  single : ∀ q q' u u' t, P (.begins q u t) → P (.begins q' u' t) → q = q'
  below : ∀ q u t, P (.begins q u t) → t < c.db.inserts.length
  /-- A request begins one INSERT. -/
  once : ∀ q u u' t t', P (.begins q u t) → P (.begins q u' t') → t = t'
  spent : ∀ q u t, P (.begins q u t) → c.Spent q
  answers : ∀ (k : ℕ) (call : HttpCall), c.calls[k]? = some call → Vouched P c.db k call.state

theorem traced_start (nodeIds : List JsString) : Traced (fun _ ↦ False) (start nodeIds) := by
  refine ⟨agrees_start nodeIds, Db.recorded_empty, fun q u R content hposts ↦ ?_,
    by rintro _ _ ⟨⟩, by rintro _ _ _ _ _ ⟨⟩, by rintro _ _ _ ⟨⟩, by rintro _ _ _ _ _ ⟨⟩,
    by rintro _ _ _ ⟨⟩, by rintro _ _ ⟨⟩⟩
  cases q with
  | frame i k =>
    simp only [posts, Option.bind_eq_some_iff] at hposts
    obtain ⟨task, ⟨n, hn, htask⟩, -⟩ := hposts
    obtain ⟨nodeId, -, rfl⟩ := List.mem_map.mp (List.mem_of_getElem? hn)
    cases htask
  | call k => cases hposts

theorem Commits.step {P' : Deed → Prop} {e : ClusterEvent} {row : MessageRow}
    (h : Commits P c.db k row) (hP : ∀ a, P a → P' a) (hstep : c.step e = some c') :
    Commits P' c'.db k row := by
  obtain ⟨u, t, ins, hbegins, hget, hstage⟩ := h
  refine ⟨u, t, ins, hP _ hbegins, ?_, hstage⟩
  rcases db_of_step hstep with ⟨-, hdb⟩ | ⟨d, -, hdb⟩
  · rw [hdb, hget]
  · exact Db.committed_of_step hdb hget hstage

/-- What the promise of an INSERT is fulfilled with. -/
theorem committed_of_insertResult {stage : InsertStage} {lost : Bool} {result : QueryResult}
    (h : insertResult stage lost = .resolved result) :
    ∃ row, stage = .committed row ∧ result = .messages [row] := by
  rw [insertResult.eq_def] at h
  split at h
  · exact ⟨_, rfl, (Settled.resolved.inj h).symm⟩
  · cases h

/-- **Step lemma for the answers.** -/
theorem vouched_of_step {e : ClusterEvent} (hstep : c.step e = some c')
    (hanswers : ∀ (k : ℕ) (call : HttpCall), c.calls[k]? = some call →
      Vouched P c.db k call.state) {call' : HttpCall} (hget' : c'.calls[k]? = some call') :
    Vouched (fun deed ↦ P deed ∨ deed.Seen c e) c'.db k call'.state := by
  have hkeeps : ∀ {row}, Commits P c.db k row →
      Commits (fun deed ↦ P deed ∨ deed.Seen c e) c'.db k row :=
    fun h ↦ h.step (fun _ ↦ Or.inl) hstep
  rcases call_of_step hstep hget' with ⟨call, hget, hu, hmoves⟩ | ⟨userId, request, -, -, rfl⟩
  · have hvouched := hanswers k call hget
    generalize call'.state = state' at hmoves
    cases hmoves with
    | stays =>
      revert hvouched
      rw [Vouched.eq_def, Vouched.eq_def]
      split
      · exact fun ⟨u, hbegins⟩ ↦ ⟨u, Or.inl hbegins⟩
      · exact fun ⟨row, hrow, hcommits⟩ ↦ ⟨row, hrow, hkeeps hcommits⟩
      · exact fun ⟨row, hrow, hcommits⟩ ↦ ⟨row, hrow, hkeeps hcommits⟩
      · exact id
    | ran stage fate event state =>
      cases stage with
      | postInsert R content => cases fate <;> exact trivial
      | _ => exact trivial
    | inserts R content promise promise' state moved =>
      rw [state] at hvouched
      rcases moved with ⟨rfl, rfl, ⟨hparses, rfl⟩ | rfl⟩ | ⟨t, ins, lost, rfl, hins, rfl⟩
      · -- The INSERT begins in this step.
        obtain ⟨r, hr⟩ := Option.isSome_iff_exists.mp hparses
        refine ⟨call.userId, Or.inr ⟨rfl, ?_, rfl, r, content, ?_⟩⟩
        · rw [user, hget, Option.bind_some, state]
        · rw [dbEvent, query?, hget, Option.bind_some, HttpCall.statement, state]
          exact Option.map_eq_some_iff.mpr ⟨r, hr, rfl⟩
      · exact trivial
      · -- It ends in this step, with the row it has committed.
        cases hresult : insertResult ins.stage lost with
        | rejected => exact trivial
        | resolved result =>
          obtain ⟨row, hstage, rfl⟩ := committed_of_insertResult hresult
          obtain ⟨u, hbegins⟩ := hvouched
          exact ⟨row, rfl, hkeeps ⟨u, t, ins, hbegins, hins, hstage⟩⟩
    | continues stage stage' settled state next => cases stage' <;> exact trivial
    | responds response stage settled state next =>
      rw [state] at hvouched
      rcases settled with result | _
      · cases stage with
        | postMember R content =>
          rw [HttpStage.resume, HttpStage.proceed] at next
          split at next <;> cases next
          exact trivial
        | postInsert R content =>
          cases next
          obtain ⟨row, rfl, hcommits⟩ := hvouched
          exact ⟨row, rfl, hkeeps hcommits⟩
        | joinRoom R =>
          rw [HttpStage.resume, HttpStage.proceed] at next
          split at next <;> cases next
          exact trivial
        | _ =>
          cases next
          exact trivial
      · cases next
        exact trivial
  · cases request <;> exact trivial

/-- An INSERT is begun for a request that is to post its message. -/
theorem begun_of_step {e : ClusterEvent} (hstep : c.step e = some c') {r : Uuid}
    (hd : c.dbEvent e = some (.beginInsert r u content)) : ∃ q R, Uuid.parse R = some r ∧
      c.posts q = some (u, R, content) ∧ BeginsInsert q u c.db.inserts.length c e := by
  obtain ⟨-, hunasked⟩ | ⟨q, stmt, horigin, hwaits, heq | hinsert⟩ :=
    waitsFor_of_dbEvent hstep hd
  · cases hunasked
  · cases heq
  · obtain ⟨R, u', content', r', rfl, hr, heq⟩ := insertMessage_of_insertEvent hinsert
    cases heq
    obtain ⟨-, huser⟩ := cleared_of_waitsFor hwaits rfl
    exact ⟨q, R, hr, posts_of_waitsFor hwaits, horigin, huser, rfl, r, content, hd⟩

theorem length_inserts_of_step {e : ClusterEvent} (hstep : c.step e = some c') :
    c.db.inserts.length ≤ c'.db.inserts.length := by
  rcases db_of_step hstep with ⟨-, hdb⟩ | ⟨d, -, hdb⟩
  · rw [hdb]
  · rcases Db.inserts_of_step hdb with hsame | ⟨t, ins, ins', -, -, hset⟩ |
      ⟨r, u, content, -, hbegun⟩
    · rw [hsame]
    · rw [hset, List.length_set]
    · exact hbegun ▸ List.length_append ▸ Nat.le_add_right _ _

theorem BeginsInsert.lt {e : ClusterEvent} (h : BeginsInsert q u t c e)
    (hstep : c.step e = some c') : t < c'.db.inserts.length := by
  obtain ⟨-, -, rfl, r, content, hd⟩ := h
  rcases db_of_step hstep with ⟨hnone, -⟩ | ⟨d, hsome, hdb⟩
  · cases hnone.symm.trans hd
  · obtain rfl := Option.some.inj (hd.symm.trans hsome)
    rw [← Option.some.inj hdb]
    exact List.length_append ▸ Nat.lt_succ_self _

/-- **Step lemma.** -/
theorem Traced.step (h : Traced P c) {e : ClusterEvent} (hstep : c.step e = some c') :
    Traced (fun deed ↦ P deed ∨ deed.Seen c e) c' where
  agrees := h.agrees.step hstep
  recorded := by
    rcases db_of_step hstep with ⟨-, hdb⟩ | ⟨d, -, hdb⟩
    · exact hdb ▸ h.recorded
    · exact h.recorded.step hdb
  asked q u R content hposts := (posts_of_step h.agrees hstep hposts).imp (h.asked q u R content) id
  inserts t ins' hget' := by
    rcases insert_before hstep hget' with ⟨ins, hget, d, hmoves⟩ | ⟨r, u, content, hd, rfl, rfl⟩
    · obtain ⟨q, R, hr, hasks, hbegins⟩ := h.inserts t ins hget
      rw [hmoves.params]
      exact ⟨q, R, hr, Or.inl hasks, Or.inl hbegins⟩
    · obtain ⟨q, R, hr, hposts, hbegins⟩ := begun_of_step hstep hd
      exact ⟨q, R, hr, Or.inl (h.asked q u R content hposts), Or.inr hbegins⟩
  single q q' u u' t := by
    rintro (hold | hnew) (hold' | hnew')
    · exact h.single q q' u u' t hold hold'
    · exact absurd (h.below q u t hold) (Nat.lt_irrefl t <| hnew'.2.2.1 ▸ ·)
    · exact absurd (h.below q' u' t hold') (Nat.lt_irrefl t <| hnew.2.2.1 ▸ ·)
    · exact Option.some.inj (hnew.1.symm.trans hnew'.1)
  below q u t := by
    rintro (hold | hnew)
    · exact (h.below q u t hold).trans_le (length_inserts_of_step hstep)
    · exact hnew.lt hstep
  once q u u' t t' := by
    rintro (hold | hnew) (hold' | hnew')
    · exact h.once q u u' t t' hold hold'
    · exact absurd (h.spent q u t hold) (spent_of_beginsInsert hnew' hstep).1
    · exact absurd (h.spent q u' t' hold') (spent_of_beginsInsert hnew hstep).1
    · exact hnew.2.2.1.symm.trans hnew'.2.2.1
  spent q u t := by
    rintro (hold | hnew)
    · exact (h.spent q u t hold).step h.agrees hstep
    · exact (spent_of_beginsInsert hnew hstep).2
  answers k call' hget' := vouched_of_step hstep h.answers hget'

/-! ## Runs -/

/-- The user sends the text in a frame. -/
def sendsFrame : Event :=
  .frame 0 (.sendMessage ⟨⟨Uuid.nil.text, Uuid.nil.text_ne_nil⟩, [0x68], by decide⟩)

end Cluster

end PostgresChat
