import PostgresChat.Cluster.System
import PostgresChat.Node.Stores
import PostgresChat.Node.Tasks

/-!
# The parts of a cluster

Every copy of the database is the database, and every node goes through a run of its own. What holds
in every run of a single node, with the rest of the world as its environment, therefore holds of
every node of every cluster.
-/

namespace PostgresChat

open Execution

namespace Node

variable {n n' : Node}

/-- `Db.queryEvent` is what a statement does to the database. -/
theorem db_runQuery (k : ℕ) (task : Task) (stage : Stage) (q : Query) (fate : Fate) :
    (n.db.queryEvent fate q = none ∧ (n.runQuery k task stage q fate).db = n.db) ∨
      ∃ d db notes, n.db.queryEvent fate q = some d ∧ n.db.apply d = some (db, notes) ∧
        (n.runQuery k task stage q fate).db = db := by
  cases hexec : n.db.exec q with
  | none =>
    refine Or.inl ⟨if_neg fun h ↦ ?_, ?_⟩
    · rw [hexec] at h
      cases h.2
    · rw [Node.runQuery.eq_def, hexec]
      cases fate <;> rfl
  | some res =>
    obtain ⟨db, result, notes⟩ := res
    have happly : n.db.apply (.query q) = some (db, notes) := by
      rw [Db.apply, hexec, Option.map_some]
    have hran : fate ≠ .refused → n.db.queryEvent fate q = some (.query q) := fun hfate ↦
      if_pos ⟨hfate, by rw [hexec]; rfl⟩
    cases fate with
    | refused => exact Or.inl ⟨if_neg fun h ↦ h.1 rfl, by rw [Node.runQuery.eq_def]; rfl⟩
    | answered =>
      refine Or.inr ⟨_, db, notes, hran (by rintro ⟨⟩), happly, ?_⟩
      rw [Node.runQuery.eq_def, hexec]
      exact (withDb_frame n db notes).1
    | lost =>
      refine Or.inr ⟨_, db, notes, hran (by rintro ⟨⟩), happly, ?_⟩
      rw [Node.runQuery.eq_def, hexec]
      exact (withDb_frame n db notes).1

/-- `Node.dbEvent` is what a step does to the database. -/
theorem db_of_dbEvent {e : Event} (hstep : n.step e = some n') :
    (n.dbEvent e = none ∧ n'.db = n.db) ∨
      ∃ d db notes, n.dbEvent e = some d ∧ n.db.apply d = some (db, notes) ∧ n'.db = db := by
  cases e with
  | runQuery k fate =>
    obtain ⟨task, stage, q, hget, hstate, hrequest, rfl⟩ := ran_of_step hstep
    have hevent : n.dbEvent (.runQuery k fate) = n.db.queryEvent fate q := by
      rw [dbEvent, hget, Option.bind_some, Task.statement, hstate]
      dsimp only
      rw [hrequest, Option.bind_some]
    rw [hevent]
    exact db_runQuery k task stage q fate
  | beginInsert k =>
    simp only [step, Option.bind_eq_bind, Option.bind_eq_some_iff] at hstep
    obtain ⟨task, hget, hstep⟩ := hstep
    split at hstep
    · rename_i roomId content hstate
      have hevent : n.dbEvent (.beginInsert k) =
          (Uuid.parse roomId).map fun r ↦ .beginInsert r task.userId content := by
        rw [dbEvent, hget, Option.bind_some, Task.statement, hstate]
        rfl
      cases hstep
      rw [hevent, Node.beginInsert]
      cases hr : Uuid.parse roomId with
      | none => exact Or.inl ⟨rfl, rfl⟩
      | some r => exact Or.inr ⟨_, _, _, rfl, rfl, rfl⟩
    · cases hstep
  | db d =>
    simp only [step, Option.bind_eq_bind, Option.bind_eq_some_iff] at hstep
    obtain ⟨⟨db, notes⟩, happly, hstep⟩ := hstep
    cases hstep
    exact Or.inr ⟨d, db, notes, rfl, happly, (withDb_frame n db notes).1⟩
  | insertSettles k lost =>
    simp only [step, Option.bind_eq_bind, Option.bind_eq_some_iff] at hstep
    obtain ⟨task, hget, hstep⟩ := hstep
    split at hstep
    · simp only [Option.bind_eq_some_iff] at hstep
      obtain ⟨ins, -, -, -, hstep⟩ := hstep
      cases hstep
      exact Or.inl ⟨rfl, rfl⟩
    · cases hstep
  | pong s =>
    cases hstep
    exact Or.inl ⟨rfl, rfl⟩
  | socketClosing s =>
    simp only [step, Option.bind_eq_bind, Option.bind_eq_some_iff] at hstep
    obtain ⟨socket, -, -, -, hstep⟩ := hstep
    cases hstep
    exact Or.inl ⟨rfl, rfl⟩
  | buffered s bytes =>
    cases hstep
    exact Or.inl ⟨rfl, rfl⟩
  | destroyChat =>
    cases hstep
    exact Or.inl ⟨rfl, rfl⟩
  | connect userId => exact Or.inl ⟨rfl, db_of_step (Or.inl rfl) hstep⟩
  | frame s frame => exact Or.inl ⟨rfl, db_of_step (Or.inl rfl) hstep⟩
  | resume k => exact Or.inl ⟨rfl, db_of_step (Or.inl rfl) hstep⟩
  | pg d => exact Or.inl ⟨rfl, db_of_step (Or.inr rfl) hstep⟩
  | deliver c => exact Or.inl ⟨rfl, db_of_step (Or.inr rfl) hstep⟩
  | flush => exact Or.inl ⟨rfl, db_of_step (Or.inr rfl) hstep⟩
  | immediate => exact Or.inl ⟨rfl, db_of_step (Or.inr rfl) hstep⟩
  | heartbeat s => exact Or.inl ⟨rfl, db_of_step (Or.inl rfl) hstep⟩
  | socketError s => exact Or.inl ⟨rfl, db_of_step (Or.inl rfl) hstep⟩
  | socketClose s => exact Or.inl ⟨rfl, db_of_step (Or.inl rfl) hstep⟩

end Node

namespace Cluster

variable {c c' : Cluster} {i : ℕ} {n : Node}

/-- The database moves on, or stays. -/
theorem moved_cases {d : Option DbEvent} (h : c.move d = some c') :
    (d = none ∧ c' = c) ∨ ∃ d' db notes, d = some d' ∧ c.db.apply d' = some (db, notes) ∧
      c' = { c with db, nodes := c.nodes.map fun n ↦ n.withDb db notes } := by
  cases d with
  | none => exact Or.inl ⟨rfl, (Option.some.inj h).symm⟩
  | some d' =>
    obtain ⟨⟨db, notes⟩, happly, rfl⟩ := Option.map_eq_some_iff.mp h
    exact Or.inr ⟨d', db, notes, rfl, happly, rfl⟩

/-- The step of a node. -/
theorem act_node {c₁ : Cluster} {e : Event} (h : c.act c₁ (.node i e) = some c') :
    (∀ d, e ≠ .db d) ∧ ∃ n n', c.nodes[i]? = some n ∧ n.step e = some n' ∧
      c' = { c₁ with nodes := c₁.nodes.set i n' } := by
  have hact : (∀ d, e ≠ .db d) ∧ (do
      let n ← c.nodes[i]?
      let n' ← n.step e
      return { c₁ with nodes := c₁.nodes.set i n' }) = some c' := by
    cases e with
    | db d => cases h
    | _ => exact ⟨by rintro d ⟨⟩, h⟩
  simp only [Option.bind_eq_bind, Option.bind_eq_some_iff] at hact
  obtain ⟨hdb, n, hget, n', hstep, hact⟩ := hact
  exact ⟨hdb, n, n', hget, hstep, (Option.some.inj hact).symm⟩

/-- The other steps leave the nodes to the database. -/
theorem act_call {c₁ : Cluster} {e : ClusterEvent} (he : ∀ i e', e ≠ .node i e')
    (h : c.act c₁ e = some c') : c'.nodes = c₁.nodes ∧ c'.db = c₁.db := by
  cases e with
  | node i e' => exact absurd rfl (he i e')
  | request userId request =>
    cases h
    exact ⟨rfl, rfl⟩
  | runStatement k fate =>
    simp only [act, Option.bind_eq_bind, Option.bind_eq_some_iff] at h
    obtain ⟨call, -, h⟩ := h
    split at h <;> cases h
    exact ⟨rfl, rfl⟩
  | beginInsert k =>
    simp only [act, Option.bind_eq_bind, Option.bind_eq_some_iff] at h
    obtain ⟨call, -, h⟩ := h
    split at h <;> cases h
    exact ⟨rfl, rfl⟩
  | insertSettles k lost =>
    simp only [act, Option.bind_eq_bind, Option.bind_eq_some_iff] at h
    obtain ⟨call, -, h⟩ := h
    split at h
    · simp only [Option.bind_eq_some_iff] at h
      obtain ⟨ins, -, -, -, h⟩ := h
      cases h
      exact ⟨rfl, rfl⟩
    · cases h
  | resume k =>
    simp only [act, Option.bind_eq_bind, Option.bind_eq_some_iff] at h
    obtain ⟨call, -, h⟩ := h
    split at h
    · split at h <;> cases h <;> exact ⟨rfl, rfl⟩
    · cases h
  | db d =>
    simp only [act, Option.ite_none_right_eq_some] at h
    obtain ⟨-, h⟩ := h
    cases h
    exact ⟨rfl, rfl⟩

/-! ## The run of a node -/

/-- What a step is for node `i`: its own step, or what happens to the database. -/
def project (c : Cluster) (i : ℕ) (e : ClusterEvent) : List Event :=
  match e with
  | .node j e' => if j = i then [e'] else (c.dbEvent e).toList.map .db
  | _ => (c.dbEvent e).toList.map .db

/-- The database moves on for a node that only watches. -/
theorem node_of_move {d : Option DbEvent} (h : c.move d = some c') (hget : c.nodes[i]? = some n)
    (hdb : n.db = c.db) :
    ∃ n', c'.nodes[i]? = some n' ∧ run Node.step n (d.toList.map .db) = some n' ∧
      n'.db = c'.db := by
  rcases moved_cases h with ⟨rfl, rfl⟩ | ⟨d', db, notes, rfl, happly, rfl⟩
  · exact ⟨n, hget, rfl, hdb⟩
  · refine ⟨n.withDb db notes, ?_, ?_, (Node.withDb_frame n db notes).1⟩
    · rw [List.getElem?_map, hget, Option.map_some]
    · refine run_cons_eq_some.mpr ⟨_, ?_, run_nil _⟩
      rw [Node.step, hdb, happly]
      rfl

/-- **Step lemma.** A node whose copy is the database takes its step, and its copy is again the
database. -/
theorem node_of_step {e : ClusterEvent} (hstep : c.step e = some c') (hget : c.nodes[i]? = some n)
    (hdb : n.db = c.db) :
    ∃ n', c'.nodes[i]? = some n' ∧ run Node.step n (c.project i e) = some n' ∧ n'.db = c'.db := by
  obtain ⟨c₁, hmove, hact⟩ := Option.bind_eq_some_iff.mp hstep
  obtain ⟨n₁, hget₁, hrun₁, hdb₁⟩ := node_of_move hmove hget hdb
  by_cases he : ∃ j e', e = .node j e'
  · obtain ⟨j, e', rfl⟩ := he
    obtain ⟨hown, m, m', hgetj, hstepj, rfl⟩ := act_node hact
    by_cases hij : j = i
    · subst hij
      obtain rfl := Option.some.inj (hgetj.symm.trans hget)
      refine ⟨m', List.getElem?_set_self (List.getElem?_eq_some_iff.mp hget₁).1, ?_, ?_⟩
      · rw [project, if_pos rfl]
        exact run_cons_eq_some.mpr ⟨m', hstepj, run_nil _⟩
      · have hevent : c.dbEvent (.node j e') = m.dbEvent e' := by
          rw [dbEvent, hget, Option.bind_some]
        rw [hevent] at hmove
        rcases Node.db_of_dbEvent hstepj with ⟨hnone, hm'⟩ | ⟨d, db, notes, hsome, happly, hm'⟩
        · rw [hnone] at hmove
          rw [hm', hdb, ← Option.some.inj hmove]
        · rw [hsome, move, ← hdb, happly] at hmove
          rw [hm', ← Option.some.inj hmove]
    · refine ⟨n₁, (List.getElem?_set_ne hij).trans hget₁, ?_, hdb₁⟩
      rw [project, if_neg hij]
      exact hrun₁
  · obtain ⟨hnodes, hdb'⟩ := act_call (fun j e' h ↦ he ⟨j, e', h⟩) hact
    refine ⟨n₁, by rw [hnodes, hget₁], ?_, by rw [hdb', hdb₁]⟩
    cases e with
    | node j e' => exact absurd ⟨j, e', rfl⟩ he
    | _ => exact hrun₁

/-- No node comes or goes. -/
theorem length_nodes_of_step {e : ClusterEvent} (hstep : c.step e = some c') :
    c'.nodes.length = c.nodes.length := by
  obtain ⟨c₁, hmove, hact⟩ := Option.bind_eq_some_iff.mp hstep
  have hmoved : c₁.nodes.length = c.nodes.length := by
    rcases moved_cases hmove with ⟨-, rfl⟩ | ⟨_, _, _, -, -, rfl⟩
    · rfl
    · exact List.length_map _
  by_cases he : ∃ j e', e = .node j e'
  · obtain ⟨j, e', rfl⟩ := he
    obtain ⟨-, m, m', -, -, rfl⟩ := act_node hact
    exact List.length_set.trans hmoved
  · rw [(act_call (fun j e' h ↦ he ⟨j, e', h⟩) hact).1, hmoved]

/-- The copies of the database agree with it. -/
def Agrees (c : Cluster) : Prop := ∀ n ∈ c.nodes, n.db = c.db

/-- What a step is for a node: its own step, a step of the database, or nothing. -/
theorem Agrees.node_cases (h : c.Agrees) {e : ClusterEvent} (hstep : c.step e = some c')
    {n' : Node} (hget' : c'.nodes[i]? = some n') :
    ∃ n, c.nodes[i]? = some n ∧ n.db = c.db ∧ n'.db = c'.db ∧
      (n' = n ∨ (∃ e', e = .node i e' ∧ n.step e' = some n') ∨
        ∃ d, c.dbEvent e = some d ∧ n.step (.db d) = some n') := by
  have hlt : i < c.nodes.length :=
    length_nodes_of_step hstep ▸ (List.getElem?_eq_some_iff.mp hget').1
  have hget := List.getElem?_eq_getElem hlt
  have hdb := h _ (List.mem_of_getElem? hget)
  obtain ⟨n'', hget'', hrun, hdb''⟩ := node_of_step hstep hget hdb
  obtain rfl := Option.some.inj (hget''.symm.trans hget')
  refine ⟨_, hget, hdb, hdb'', ?_⟩
  generalize c.nodes[i] = n at hrun
  have hmoves : run Node.step n ((c.dbEvent e).toList.map .db) = some n'' →
      n'' = n ∨ ∃ d, c.dbEvent e = some d ∧ n.step (.db d) = some n'' := by
    intro hrun
    cases hd : c.dbEvent e with
    | none =>
      rw [hd] at hrun
      exact Or.inl (Option.some.inj hrun).symm
    | some d =>
      rw [hd] at hrun
      obtain ⟨_, hstep', hrun⟩ := run_cons_eq_some.mp hrun
      exact Or.inr ⟨d, rfl, hstep'.trans hrun⟩
  cases e with
  | node j e' =>
    rw [project] at hrun
    split at hrun
    · rename_i hj
      obtain ⟨_, hstep', hrun⟩ := run_cons_eq_some.mp hrun
      exact Or.inr (Or.inl ⟨e', by rw [hj], hstep'.trans hrun⟩)
    · exact (hmoves hrun).imp_right Or.inr
  | _ => exact (hmoves hrun).imp_right Or.inr

/-- A node after a step has taken it, or is as before. -/
theorem Agrees.node_before (h : c.Agrees) {e : ClusterEvent} (hstep : c.step e = some c')
    {n' : Node} (hget' : c'.nodes[i]? = some n') :
    ∃ n, c.nodes[i]? = some n ∧ n.db = c.db ∧ n'.db = c'.db ∧
      (n' = n ∨ ∃ e', n.step e' = some n') := by
  obtain ⟨n, hget, hdb, hdb', hsame | ⟨e', -, hstep'⟩ | ⟨d, -, hstep'⟩⟩ := h.node_cases hstep hget'
  · exact ⟨n, hget, hdb, hdb', Or.inl hsame⟩
  · exact ⟨n, hget, hdb, hdb', Or.inr ⟨e', hstep'⟩⟩
  · exact ⟨n, hget, hdb, hdb', Or.inr ⟨.db d, hstep'⟩⟩

theorem Agrees.step (h : c.Agrees) {e : ClusterEvent} (hstep : c.step e = some c') :
    c'.Agrees := by
  intro n' hn'
  obtain ⟨i, hget'⟩ := List.mem_iff_getElem?.mp hn'
  obtain ⟨n, -, -, hdb, -⟩ := h.node_before hstep hget'
  exact hdb

theorem agrees_start (nodeIds : List JsString) : (start nodeIds).Agrees := by
  intro n hn
  obtain ⟨nodeId, -, rfl⟩ := List.mem_map.mp hn
  rfl

/-- What every step of a node preserves, the steps of the cluster preserve for all nodes. -/
theorem Agrees.forall_nodes (h : c.Agrees) {I : Node → Prop}
    (hinv : ∀ {n e n'}, I n → Node.step n e = some n' → I n') (hI : ∀ n ∈ c.nodes, I n)
    {e : ClusterEvent} (hstep : c.step e = some c') : ∀ n ∈ c'.nodes, I n := by
  intro n' hn'
  obtain ⟨i, hget'⟩ := List.mem_iff_getElem?.mp hn'
  obtain ⟨n, hget, -, -, rfl | ⟨e', hstep'⟩⟩ := h.node_before hstep hget'
  · exact hI _ (List.mem_of_getElem? hget)
  · exact hinv (hI n (List.mem_of_getElem? hget)) hstep'

/-- What holds of a node at the start and is preserved by its steps holds of every node. -/
theorem forall_nodes_of_run {I : Node → Prop} (hstart : ∀ nodeId, I (.start nodeId))
    (hinv : ∀ {n e n'}, I n → Node.step n e = some n' → I n') {nodeIds : List JsString}
    {es : List ClusterEvent} (hrun : run step (start nodeIds) es = some c) :
    c.Agrees ∧ ∀ n ∈ c.nodes, I n := by
  refine run_invariant (fun c : Cluster ↦ c.Agrees ∧ ∀ n ∈ c.nodes, I n)
    (fun h hstep ↦ ⟨h.1.step hstep, h.1.forall_nodes hinv h.2 hstep⟩)
    ⟨agrees_start nodeIds, fun n hn ↦ ?_⟩ hrun
  obtain ⟨nodeId, -, rfl⟩ := List.mem_map.mp hn
  exact hstart nodeId

/-- Every node of a run of the cluster goes through a run of its own, and its copy of the database
is the database. -/
theorem node_run {nodeIds : List JsString} {es : List ClusterEvent}
    (hrun : run step (start nodeIds) es = some c) {nodeId : JsString}
    (hid : nodeIds[i]? = some nodeId) :
    ∃ n ds, c.nodes[i]? = some n ∧ n.db = c.db ∧
      run Node.step (Node.start nodeId) ds = some n := by
  refine run_invariant (fun c : Cluster ↦ ∃ n ds, c.nodes[i]? = some n ∧ n.db = c.db ∧
    run Node.step (Node.start nodeId) ds = some n) ?_ ?_ hrun
  · rintro c e c' ⟨n, ds, hget, hdb, hrun⟩ hstep
    obtain ⟨n', hget', hrun', hdb'⟩ := node_of_step hstep hget hdb
    exact ⟨n', _, hget', hdb', run_append_eq_some.mpr ⟨n, hrun, hrun'⟩⟩
  · refine ⟨.start nodeId, [], ?_, rfl, rfl⟩
    rw [start, List.getElem?_map, hid, Option.map_some]

/-! ## The database -/

/-- `Cluster.dbEvent` is what a step does to the database. -/
theorem db_of_step {e : ClusterEvent} (hstep : c.step e = some c') :
    (c.dbEvent e = none ∧ c'.db = c.db) ∨
      ∃ d, c.dbEvent e = some d ∧ c.db.step d = some c'.db := by
  obtain ⟨c₁, hmove, hact⟩ := Option.bind_eq_some_iff.mp hstep
  have hdb : c'.db = c₁.db := by
    by_cases he : ∃ i e', e = .node i e'
    · obtain ⟨i, e', rfl⟩ := he
      obtain ⟨-, n, n', -, -, rfl⟩ := act_node hact
      rfl
    · exact (act_call (fun i e' h ↦ he ⟨i, e', h⟩) hact).2
  rw [hdb]
  rcases moved_cases hmove with ⟨hnone, rfl⟩ | ⟨d, db, notes, hsome, happly, rfl⟩
  · exact Or.inl ⟨hnone, rfl⟩
  · exact Or.inr ⟨d, hsome, by rw [Db.step, happly]; rfl⟩

/-! ## The calls of controllers -/

/-- How the state of call `k` changes in a step. -/
inductive CallMoves (c : Cluster) (e : ClusterEvent) (k : ℕ) (call : HttpCall) : HttpState → Prop
  | stays : CallMoves c e k call call.state
  | ran (stage : HttpStage) (fate : Fate) (event : e = .runStatement k fate)
      (state : call.state = .awaiting stage .query) :
    CallMoves c e k call
      (.awaiting stage (.settled (settle ((stage.statement call.userId).result c.db) fate)))
  | inserts (R : RoomId) (content : JsString) (promise promise' : Promise)
      (state : call.state = .awaiting (.postInsert R content) promise)
      (moved : e = .beginInsert k ∧ promise = .query ∧
          ((Uuid.parse R).isSome = true ∧ promise' = .inserting c.db.inserts.length ∨
            promise' = .settled .rejected) ∨
        ∃ t ins lost, promise = .inserting t ∧ c.db.inserts[t]? = some ins ∧
          promise' = .settled (insertResult ins.stage lost)) :
    CallMoves c e k call (.awaiting (.postInsert R content) promise')
  | continues (stage stage' : HttpStage) (settled : Settled)
      (state : call.state = .awaiting stage (.settled settled))
      (next : stage.resume settled = .await stage') :
    CallMoves c e k call (.awaiting stage' .query)
  | responds (response : HttpResponse) (stage : HttpStage) (settled : Settled)
      (state : call.state = .awaiting stage (.settled settled))
      (next : stage.resume settled = .respond response) :
    CallMoves c e k call (.responded response)

/-- What a step does to the calls: one of them moves, one is made, or nothing happens. -/
theorem calls_of_step {e : ClusterEvent} (hstep : c.step e = some c') :
    (∃ k call state, c.calls[k]? = some call ∧ CallMoves c e k call state ∧
        c'.calls = c.calls.set k { call with state := state }) ∨
      (∃ userId, ∃ request : HttpRequest, e = .request userId request ∧
        c'.calls = c.calls ++ [⟨userId, .awaiting request.first .query⟩]) ∨
      c'.calls = c.calls := by
  obtain ⟨c₁, hmove, hact⟩ := Option.bind_eq_some_iff.mp hstep
  have hcalls : c₁.calls = c.calls := by
    rcases moved_cases hmove with ⟨-, rfl⟩ | ⟨_, _, _, -, -, rfl⟩ <;> rfl
  have hset : ∀ (k : ℕ) (call : HttpCall) (state : HttpState),
      (c₁.setCall k call state).calls = c.calls.set k { call with state := state } :=
    fun k call state ↦ by rw [setCall, hcalls]
  cases e with
  | node i e' =>
    obtain ⟨-, n, n', -, -, rfl⟩ := act_node hact
    exact Or.inr (Or.inr hcalls)
  | request userId request =>
    cases hact
    exact Or.inr (Or.inl ⟨userId, request, rfl, by rw [hcalls]⟩)
  | runStatement k fate =>
    simp only [act, Option.bind_eq_bind, Option.bind_eq_some_iff] at hact
    obtain ⟨call, hget, hact⟩ := hact
    split at hact <;> cases hact
    rename_i stage _ hstate
    exact Or.inl ⟨k, call, _, hget, .ran stage fate rfl hstate, hset _ _ _⟩
  | beginInsert k =>
    simp only [act, Option.bind_eq_bind, Option.bind_eq_some_iff] at hact
    obtain ⟨call, hget, hact⟩ := hact
    split at hact <;> cases hact
    rename_i roomId content hstate
    refine Or.inl ⟨k, call, _, hget,
      .inserts roomId content _ _ hstate (Or.inl ⟨rfl, rfl, ?_⟩), hset _ _ _⟩
    split
    · exact Or.inl ⟨‹_›, rfl⟩
    · exact Or.inr rfl
  | insertSettles k lost =>
    simp only [act, Option.bind_eq_bind, Option.bind_eq_some_iff] at hact
    obtain ⟨call, hget, hact⟩ := hact
    split at hact
    · rename_i roomId content t hstate
      simp only [Option.bind_eq_some_iff] at hact
      obtain ⟨ins, hins, -, -, hact⟩ := hact
      cases hact
      exact Or.inl ⟨k, call, _, hget,
        .inserts roomId content _ _ hstate (Or.inr ⟨t, ins, lost, rfl, hins, rfl⟩), hset _ _ _⟩
    · cases hact
  | resume k =>
    simp only [act, Option.bind_eq_bind, Option.bind_eq_some_iff] at hact
    obtain ⟨call, hget, hact⟩ := hact
    split at hact
    · rename_i stage settled hstate
      split at hact
      · rename_i stage' hnext
        cases hact
        exact Or.inl ⟨k, call, _, hget, .continues stage stage' settled hstate hnext, hset _ _ _⟩
      · rename_i response hnext
        cases hact
        exact Or.inl ⟨k, call, _, hget, .responds response stage settled hstate hnext, hset _ _ _⟩
    · cases hact
  | db d =>
    simp only [act, Option.ite_none_right_eq_some, Option.some.injEq] at hact
    obtain ⟨-, rfl⟩ := hact
    exact Or.inr (Or.inr hcalls)

/-- A call moves, or has just been made. -/
theorem call_of_step {e : ClusterEvent} (hstep : c.step e = some c') {k : ℕ} {call' : HttpCall}
    (hget' : c'.calls[k]? = some call') :
    (∃ call, c.calls[k]? = some call ∧ call'.userId = call.userId ∧
        CallMoves c e k call call'.state) ∨
      ∃ userId, ∃ request : HttpRequest, e = .request userId request ∧ k = c.calls.length ∧
        call' = ⟨userId, .awaiting request.first .query⟩ := by
  rcases calls_of_step hstep with ⟨k₀, call₀, state, hget₀, hmoves, hcalls⟩ |
    ⟨userId, request, he, hcalls⟩ | hcalls
  · rw [hcalls] at hget'
    by_cases hk : k₀ = k
    · subst hk
      rw [List.getElem?_set_self (List.getElem?_eq_some_iff.mp hget₀).1] at hget'
      obtain rfl := Option.some.inj hget'
      exact Or.inl ⟨call₀, hget₀, rfl, hmoves⟩
    · rw [List.getElem?_set_ne hk] at hget'
      exact Or.inl ⟨call', hget', rfl, .stays⟩
  · rw [hcalls] at hget'
    rcases Lists.getElem?_concat_eq_some.mp hget' with hget' | ⟨hk, hcall⟩
    · exact Or.inl ⟨call', hget', rfl, .stays⟩
    · exact Or.inr ⟨userId, request, he, hk, hcall⟩
  · exact Or.inl ⟨call', hcalls ▸ hget', rfl, .stays⟩

/-- No call is forgotten. -/
theorem call_after_step {e : ClusterEvent} (hstep : c.step e = some c') {k : ℕ} {call : HttpCall}
    (hget : c.calls[k]? = some call) : ∃ call', c'.calls[k]? = some call' ∧
      call'.userId = call.userId ∧ CallMoves c e k call call'.state := by
  have hlength : c.calls.length ≤ c'.calls.length := by
    rcases calls_of_step hstep with ⟨_, _, _, -, -, hcalls⟩ | ⟨_, _, -, hcalls⟩ | hcalls <;>
      rw [hcalls]
    · rw [List.length_set]
    · exact List.length_append ▸ Nat.le_add_right _ _
  have hlt := (List.getElem?_eq_some_iff.mp hget).1
  have hget' := List.getElem?_eq_getElem (hlt.trans_le hlength)
  rcases call_of_step hstep hget' with ⟨call₁, hget₁, hu, hmoves⟩ | ⟨_, _, -, hk, -⟩
  · obtain rfl := Option.some.inj (hget.symm.trans hget₁)
    exact ⟨_, hget', hu, hmoves⟩
  · omega

end Cluster

end PostgresChat
