import PostgresChat.Chat.Http
import PostgresChat.Node.System

/-!
# Nodes, controllers and one database

Any number of nodes, and the controllers of all of them, on one database. Each node keeps its own
copy of the database as `Node.db`; what one node or controller does to the database happens to every
copy in the same step, with what it notifies, so that each node goes through a run of `Node.step`
(`node_run`). A controller uses nothing of its node but the pool, and it is not said on which node
it runs.

Everything that changes a table on behalf of a user is an event of a handler or of a controller.
What remains is `DbEvent.unasked`: accounts and rooms are created, the clock advances, the presence
sweep runs, and the INSERTs that have begun get on.
-/

namespace PostgresChat

open Execution

/-! ## State -/

/-- A call of a controller: it awaits a statement, or has been answered. No controller uses the
LISTEN connection. -/
inductive HttpState where
  | awaiting (stage : HttpStage) (promise : Promise)
  | responded (response : HttpResponse)
  deriving DecidableEq

/-- An authenticated call of a controller, known by its position in `Cluster.calls`. -/
structure HttpCall where
  userId : UserId
  state : HttpState
  deriving DecidableEq

structure Cluster where
  db : Db := {}
  nodes : List Node := []
  calls : List HttpCall := []

/-- A run of `handleFrame` on a node, or a call of a controller. -/
inductive RequestId where
  | frame (node k : ℕ)
  | call (k : ℕ)
  deriving DecidableEq

/-- What can happen next. -/
inductive ClusterEvent where
  | node (i : ℕ) (e : Event)
  | request (userId : UserId) (request : HttpRequest)
  /-- The statement awaited by call `k` runs. -/
  | runStatement (k : ℕ) (fate : Fate)
  | beginInsert (k : ℕ)
  | insertSettles (k : ℕ) (lost : Bool)
  /-- Call `k` continues. -/
  | resume (k : ℕ)
  | db (d : DbEvent)

/-- The steps of the database that no request asks for. -/
def DbEvent.unasked : DbEvent → Bool
  | .query q => q = .deleteStalePresence
  | .beginInsert .. => false
  | _ => true

/-! ## What an event does to the database -/

/-- The statement a handler waits for. -/
def Task.statement (task : Task) (nodeId : JsString) : Option Query :=
  match task.state with
  | .awaiting stage .query =>
    match stage.request task.userId nodeId with
    | .query q => some q
    | _ => none
  | _ => none

/-- The statement a call waits for. -/
def HttpCall.statement (call : HttpCall) : Option HttpStatement :=
  match call.state with
  | .awaiting stage .query => some (stage.statement call.userId)
  | _ => none

/-- The step the database takes when a statement is run; one that fails has no effect. -/
def Db.queryEvent (db : Db) (fate : Fate) (q : Query) : Option DbEvent :=
  if fate ≠ .refused ∧ (db.exec q).isSome then some (.query q) else none

/-- The step the database takes when the INSERT of a message begins. -/
def Query.insertEvent : Query → Option DbEvent
  | .insertMessage roomId userId content =>
    (Uuid.parse roomId).map fun r ↦ .beginInsert r userId content
  | _ => none

/-- The step the database takes in an event of a node. -/
def Node.dbEvent (n : Node) : Event → Option DbEvent
  | .runQuery k fate => (n.tasks[k]?.bind (·.statement n.pg.nodeId)).bind (n.db.queryEvent fate)
  | .beginInsert k => (n.tasks[k]?.bind (·.statement n.pg.nodeId)).bind Query.insertEvent
  | .db d => some d
  | _ => none

namespace Cluster

/-- The nodes `nodeIds` have been initialized, on an empty database. -/
def start (nodeIds : List JsString) : Cluster := { nodes := nodeIds.map Node.start }

/-- The query call `k` waits for. -/
def query? (c : Cluster) (k : ℕ) : Option Query :=
  (c.calls[k]?.bind HttpCall.statement).bind HttpStatement.query?

/-- The step the database takes in an event. -/
def dbEvent (c : Cluster) : ClusterEvent → Option DbEvent
  | .node i e => c.nodes[i]?.bind fun n ↦ n.dbEvent e
  | .runStatement k fate => (c.query? k).bind (c.db.queryEvent fate)
  | .beginInsert k => (c.query? k).bind Query.insertEvent
  | .db d => some d
  | .request .. | .insertSettles .. | .resume _ => none

/-- The database moves on, and notifies the nodes. -/
def move (c : Cluster) : Option DbEvent → Option Cluster
  | none => some c
  | some d => (c.db.apply d).map fun res ↦
    { c with db := res.1, nodes := c.nodes.map fun n ↦ n.withDb res.1 res.2 }

/-! ## Steps -/

/-- Call `k` is in another state. -/
def setCall (c : Cluster) (k : ℕ) (call : HttpCall) (state : HttpState) : Cluster :=
  { c with calls := c.calls.set k { call with state := state } }

/-- What the promise of a statement settles to. -/
def settle (result : Option QueryResult) : Fate → Settled
  | .answered => (result.map Settled.resolved).getD .rejected
  | .refused | .lost => .rejected

/-- What the promise of an `INSERT ... RETURNING` settles to. -/
def insertResult (stage : InsertStage) (lost : Bool) : Settled :=
  match lost, stage with
  | false, .committed row => .resolved (.messages [row])
  | _, _ => .rejected

/-- What the event changes besides the database: a node takes the step itself, or a call gets on.
Everything is read from `c`, the state before the step, and `c'` is `c` with the database moved on.
-/
def act (c c' : Cluster) : ClusterEvent → Option Cluster
  | .node _ (.db _) => none
  | .node i e => do
    let n ← c.nodes[i]?
    let n' ← n.step e
    return { c' with nodes := c'.nodes.set i n' }
  | .request userId request =>
    some { c' with calls := c'.calls ++ [⟨userId, .awaiting request.first .query⟩] }
  | .runStatement k fate => do
    let call ← c.calls[k]?
    match call.state with
    | .awaiting (.postInsert _ _) _ => none
    | .awaiting stage .query =>
      let result := (stage.statement call.userId).result c.db
      return c'.setCall k call (.awaiting stage (.settled (settle result fate)))
    | _ => none
  | .beginInsert k => do
    let call ← c.calls[k]?
    match call.state with
    | .awaiting (.postInsert roomId content) .query =>
      let promise : Promise :=
        if (Uuid.parse roomId).isSome then .inserting c.db.inserts.length else .settled .rejected
      return c'.setCall k call (.awaiting (.postInsert roomId content) promise)
    | _ => none
  | .insertSettles k lost => do
    let call ← c.calls[k]?
    match call.state with
    | .awaiting (.postInsert roomId content) (.inserting t) => do
      let ins ← c.db.inserts[t]?
      guard (lost = true ∨ ins.stage.inFlight = false)
      return c'.setCall k call (.awaiting (.postInsert roomId content)
        (.settled (insertResult ins.stage lost)))
    | _ => none
  | .resume k => do
    let call ← c.calls[k]?
    match call.state with
    | .awaiting stage (.settled settled) =>
      match stage.resume settled with
      | .await stage' => return c'.setCall k call (.awaiting stage' .query)
      | .respond response => return c'.setCall k call (.responded response)
    | _ => none
  | .db d => if d.unasked then some c' else none

/-- The step of an event, `none` when it cannot happen. -/
def step (c : Cluster) (e : ClusterEvent) : Option Cluster := do
  let c' ← c.move (c.dbEvent e)
  c.act c' e

end Cluster

end PostgresChat
