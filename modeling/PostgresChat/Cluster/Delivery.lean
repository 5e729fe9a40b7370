import PostgresChat.Cluster.Agreement
import PostgresChat.Node.FailedJoin
import PostgresChat.Node.Reception

/-!
# One order for everybody

The messages of a room are numbered and committed by the database, and reach the sockets of the room
over the LISTEN connections of their nodes. What is true of one node is true of all of them with the
same list of messages, so sockets on different nodes agree: each is sent, in the order of the
commits, some of the committed messages (`live_common_order`), and those that receive the room are
sent the same ones (`delivered_to_all`).

A condition on the steps of a node is a condition on what the steps of the cluster are for that node
(`OnNode`), and is passed on to its run by `node_invariant`.
-/

namespace PostgresChat

open Execution

namespace Cluster

variable {c c' : Cluster} {i : ℕ} {n : Node} {r : Uuid} {G : Node → Event → Prop}

/-- What the event is for node `i` meets the guard. -/
def OnNode (i : ℕ) (G : Node → Event → Prop) (c : Cluster) (e : ClusterEvent) : Prop :=
  ∀ n ∈ c.nodes[i]?, Guarded Node.step G n (c.project i e)

instance [∀ n e, Decidable (G n e)] (c : Cluster) (e : ClusterEvent) : Decidable (OnNode i G c e) :=
  inferInstanceAs (Decidable (∀ n ∈ c.nodes[i]?, _))

/-! ## Runs of nodes -/

/-- **The rule for one node of a guarded run.** -/
theorem node_invariant (h : c.Agrees) (I : Node → Prop)
    (hinv : ∀ {n e n'}, I n → G n e → Node.step n e = some n' → I n') {es : List ClusterEvent}
    (hrun : run step c es = some c') (hguard : Guarded step (OnNode i G) c es)
    (hget : c.nodes[i]? = some n) (hn : I n) :
    ∃ n', c'.nodes[i]? = some n' ∧ n'.db = c'.db ∧ I n' := by
  refine (guarded_invariant (fun c : Cluster ↦ c.Agrees ∧
    ∃ n, c.nodes[i]? = some n ∧ n.db = c.db ∧ I n) ?_
    ⟨h, n, hget, h n (List.mem_of_getElem? hget), hn⟩ hguard hrun).2
  rintro c e c' ⟨hagrees, n, hget, hdb, hn⟩ he hstep
  obtain ⟨n', hget', hrun', hdb'⟩ := node_of_step hstep hget hdb
  exact ⟨hagrees.step hstep, n', hget', hdb',
    guarded_invariant I (fun hI hG hstep ↦ hinv hI hG hstep) hn (he n hget) hrun'⟩

/-- Whatever fails, the nodes hold committed messages only. -/
theorem genuine_of_run {nodeIds : List JsString} {es : List ClusterEvent}
    (hrun : run step (start nodeIds) es = some c)
    (hfails : ∀ i < nodeIds.length, Guarded step (OnNode i Node.FailsFast) (start nodeIds) es)
    (hget : c.nodes[i]? = some n) : n.db = c.db ∧ n.Genuine := by
  have hlength := run_invariant (fun c : Cluster ↦ c.nodes.length = (start nodeIds).nodes.length)
    (fun h hstep ↦ (length_nodes_of_step hstep).trans h) rfl hrun
  have hlt : i < (start nodeIds).nodes.length :=
    hlength ▸ (List.getElem?_eq_some_iff.mp hget).1
  obtain ⟨nodeId, -, hstart⟩ := List.mem_map.mp (List.getElem_mem hlt)
  obtain ⟨n', hget', hdb, hgenuine⟩ := node_invariant (agrees_start nodeIds)
    Node.Genuine (fun h he hstep ↦ h.step he hstep) hrun
    (hfails i (List.length_map Node.start ▸ hlt)) (List.getElem?_eq_getElem hlt)
    (hstart ▸ Node.genuine_start nodeId)
  obtain rfl := Option.some.inj (hget.symm.trans hget')
  exact ⟨hdb, hgenuine⟩

/-! ## The order -/

/-- **One order for all sockets.** In every run of any number of nodes and controllers in which no
attempt to reconnect outlives the client it works on, what a socket of any node is sent of a room in
batches are messages that have been committed, each at most once, in the order in which all of them
have been committed. -/
theorem live_common_order {nodeIds : List JsString} {es : List ClusterEvent}
    (hrun : run step (start nodeIds) es = some c)
    (hfails : ∀ i < nodeIds.length, Guarded step (OnNode i Node.FailsFast) (start nodeIds) es)
    (r : Uuid) : ∀ n ∈ c.nodes, ∀ s,
      List.Sublist (Node.ofRoom r (Node.batchesTo n.log s)) (c.db.messagesOf r) := by
  intro n hn s
  obtain ⟨i, hget⟩ := List.mem_iff_getElem?.mp hn
  obtain ⟨hdb, hgenuine⟩ := genuine_of_run hrun hfails hget
  exact hdb ▸ hgenuine.batches s r

/-- A user joins a room with a socket on each of two nodes. -/
def joinsTwice : List ClusterEvent :=
  [.db (.createUser [0x61] [0x61]), .db (.createRoom .nil), .request [0x61] (.join Uuid.nil.text),
    .runStatement 0 .answered, .resume 0, .runStatement 0 .answered] ++
  [0, 1].flatMap fun i ↦ [.node i (.connect [0x61]), .node i Node.joinNil,
    .node i (.runQuery 0 .answered), .node i (.resume 0), .node i (.pg (.execCommand 0 true)),
    .node i (.pg (.resumeCall 0)), .node i (.resume 0)]

/-- The user posts a message, and the second node sends it. -/
def postsOnce : List ClusterEvent :=
  [.request [0x61] (.postMessage Uuid.nil.text [0x68]), .runStatement 1 .answered, .resume 1,
    .beginInsert 1, .db (.assignSequence 0), .db (.setUsername 0), .db (.store 0),
    .db (.commit 0), .node 1 (.deliver 0), .node 1 .flush, .node 1 .immediate]

/-- One of two sockets has been sent the message. -/
theorem live_common_order_twoSockets :
    ∃ c, run step (start [[0x6E], [0x6F]]) (joinsTwice ++ postsOnce) = some c ∧
      (c.db.messagesOf .nil).length = 1 ∧ ∀ n ∈ c.nodes, ∀ s,
        List.Sublist (Node.ofRoom .nil (Node.batchesTo n.log s)) (c.db.messagesOf .nil) := by
  refine exists_run_of_any (fun c : Cluster ↦ (c.db.messagesOf .nil).length = 1)
    (by decide +kernel) ?_
  exact fun c hrun hlength ↦ ⟨hlength, live_common_order hrun (by decide +kernel) .nil⟩

/-! ## Everybody -/

/-- Messages are only added, at the end. -/
theorem messages_of_step {e : ClusterEvent} (hstep : c.step e = some c') :
    ∃ rows, c'.db.messages = c.db.messages ++ rows := by
  rcases db_of_step hstep with ⟨-, hdb⟩ | ⟨d, -, hd⟩
  · exact ⟨[], by rw [hdb, List.append_nil]⟩
  · obtain ⟨⟨db, notes⟩, happly, hdb⟩ := Option.map_eq_some_iff.mp hd
    obtain rfl : db = c'.db := hdb
    exact ⟨_, Db.messages_of_apply happly⟩

theorem messagesOf_of_run {es : List ClusterEvent} (hrun : run step c es = some c') (r : Uuid) :
    ∃ rows, c'.db.messagesOf r = c.db.messagesOf r ++ rows := by
  obtain ⟨rows, hrows⟩ := run_invariant
    (fun c' : Cluster ↦ ∃ rows, c'.db.messages = c.db.messages ++ rows)
    (fun ⟨rows, hrows⟩ hstep ↦ (messages_of_step hstep).imp' (rows ++ ·) fun rows' hrows' ↦ by
      rw [hrows', hrows, List.append_assoc]) ⟨[], (List.append_nil _).symm⟩ hrun
  exact ⟨Node.ofRoom r rows, by rw [Db.messagesOf, hrows, List.filter_append]; rfl⟩

/-- **Everybody is sent the same.** Let sockets of any nodes be open and in a room whose channel
their nodes are tuned in to. As long as all of them receive the room, the messages of the room
committed since are the same list for all: each socket has been sent it, or it is on its way there,
behind what was sent or on its way before. -/
theorem delivered_to_all {nodeIds : List JsString} {es₁ es₂ : List ClusterEvent} {c₁ c₂ : Cluster}
    (receivers : List (ℕ × SocketId)) (hbefore : run step (start nodeIds) es₁ = some c₁)
    (hfails : ∀ i < nodeIds.length, Guarded step (OnNode i Node.FailsFast) (start nodeIds) es₁)
    (hready : ∀ x ∈ receivers, ∃ n ∈ c₁.nodes[x.1]?, x.2 ∈ n.socketsOf r.text ∧
      n.isOpen x.2 = true ∧ n.pg.Tuned (getRoomNotifyChannel r.text))
    (hafter : run step c₁ es₂ = some c₂) (hreceiving : ∀ x ∈ receivers,
      Guarded step (OnNode x.1 (Node.Receiving x.2 r.text)) c₁ es₂) :
    ∃ rows, c₂.db.messagesOf r = c₁.db.messagesOf r ++ rows ∧
      ∀ x ∈ receivers, ∃ n₁ ∈ c₁.nodes[x.1]?, ∃ n₂ ∈ c₂.nodes[x.1]?,
        n₂.carried x.2 r = n₁.carried x.2 r ++ rows := by
  obtain ⟨rows, hrows⟩ := messagesOf_of_run hafter r
  refine ⟨rows, hrows, fun x hx ↦ ?_⟩
  obtain ⟨n₁, hget₁, hin, hopen, htuned⟩ := hready x hx
  have hagrees : c₁.Agrees := run_invariant Agrees (fun h hstep ↦ h.step hstep)
    (agrees_start nodeIds) hbefore
  obtain ⟨hdb₁, hgenuine⟩ := genuine_of_run hbefore hfails hget₁
  obtain ⟨n₂, hget₂, hdb₂, hcaught⟩ := node_invariant hagrees (Node.Caught n₁ x.2 r)
    (fun h he hstep ↦ h.step he hstep) hafter (hreceiving x hx) hget₁
    (Node.caught_self htuned hin hopen hgenuine.inOrder)
  obtain ⟨rows', hrows', hcarried⟩ := hcaught.exact
  rw [hdb₁, hdb₂, hrows] at hrows'
  exact ⟨n₁, hget₁, n₂, hget₂, List.append_cancel_left hrows' ▸ hcarried⟩

/-- The two sockets of `joinsTwice`. -/
def bothSockets : List (ℕ × SocketId) := [(0, 0), (1, 0)]

/-- The message has been sent to one of the two sockets and is on its way to the other. -/
theorem delivered_to_all_twoSockets :
    ∃ c₁, run step (start [[0x6E], [0x6F]]) joinsTwice = some c₁ ∧
      ∃ c₂, run step c₁ postsOnce = some c₂ ∧ ∃ rows, rows.length = 1 ∧
        ∀ x ∈ bothSockets, ∃ n₁ ∈ c₁.nodes[x.1]?, ∃ n₂ ∈ c₂.nodes[x.1]?,
          n₂.carried x.2 .nil = n₁.carried x.2 .nil ++ rows := by
  refine exists_run_of_any (fun c₁ : Cluster ↦
    (∀ x ∈ bothSockets, ∃ n ∈ c₁.nodes[x.1]?, x.2 ∈ n.socketsOf Uuid.nil.text ∧
      n.isOpen x.2 = true ∧ n.pg.Tuned (getRoomNotifyChannel Uuid.nil.text)) ∧
    c₁.db.messagesOf .nil = [] ∧ (∀ x ∈ bothSockets,
      Guarded step (OnNode x.1 (Node.Receiving x.2 Uuid.nil.text)) c₁ postsOnce) ∧
    (run step c₁ postsOnce).any (fun c₂ ↦ decide ((c₂.db.messagesOf .nil).length = 1)) = true)
    (by decide +kernel) ?_
  rintro c₁ hbefore ⟨hready, hnone, hreceiving, hafter⟩
  obtain ⟨c₂, hafter, hlength⟩ := (Option.any_eq_true _ _).mp hafter
  obtain ⟨rows, hrows, hall⟩ := delivered_to_all bothSockets hbefore (by decide +kernel)
    hready hafter hreceiving
  rw [hnone, List.nil_append] at hrows
  exact ⟨c₂, hafter, rows, hrows ▸ of_decide_eq_true hlength, hall⟩

end Cluster

end PostgresChat
