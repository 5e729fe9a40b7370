import PostgresChat.Cluster.Authorised
import PostgresChat.Node.Recipients
import PostgresChat.Node.Underway

/-!
# Leaving over HTTP

`RoomsService.leaveRoom` deletes the row of `room_members`, and nothing else. A node asks for this
row when a `join_room` arrives; whom it sends the messages of the room is decided by `roomSockets`
alone. So the sockets of a user who has left over HTTP go on receiving the room until each of them
leaves or closes as well. A `join_room` that had passed its check before the DELETE may, besides,
still query the history.

These are the only two ways (`http_leave_ends_delivery`): when, after the DELETE, no node flushes a
new message of the room while it has an open socket of the user that has asked to join, and no such
`join_room` queries the history after a new message, the user is sent nothing new. That later
`join_room`s do not count is due to the check, which they do not pass.
-/

namespace PostgresChat

open Execution

namespace Cluster

variable {c₀ c₁ c c' : Cluster} {u : UserId} {r : Uuid}

/-- The DELETE of `RoomsService.leaveRoom` runs for the user and the room. -/
def Leaves (u : UserId) (r : Uuid) (c : Cluster) (e : ClusterEvent) : Prop :=
  (c.dbEvent e).bind DbEvent.memberDeleted = some (r, u)

/-- The user becomes a member of the room. -/
def Rejoins (u : UserId) (r : Uuid) (c : Cluster) (e : ClusterEvent) : Prop :=
  (c.dbEvent e).bind DbEvent.memberInserted = some (r, u)

instance (c : Cluster) (e : ClusterEvent) : Decidable (Leaves u r c e) :=
  inferInstanceAs (Decidable (_ = _))

instance (c : Cluster) (e : ClusterEvent) : Decidable (Rejoins u r c e) :=
  inferInstanceAs (Decidable (_ = _))

/-- When a node flushes a message of the room that was not there in `c₁`, no socket of the user that
it can reach has asked to join the room without having been taken out of it since. -/
def Withdrawn (c₁ : Cluster) (u : UserId) (r : Uuid) (c : Cluster) (e : ClusterEvent) : Prop :=
  ∀ i n, e = .node i .flush → c.nodes[i]? = some n →
    (∃ m ∈ n.buffered r.text, m ∉ c₁.db.messages) →
    ∀ s, n.socketUsers[s]? = some u → n.accepts s = true → ¬ Node.Requested n.log s r.text

/-- When a `join_room` of the user that had passed its check in `c₁` queries the history of the
room, there is no message of the room but those there were in `c₁`. -/
def Served (c₁ : Cluster) (u : UserId) (r : Uuid) (c : Cluster) (e : ClusterEvent) : Prop :=
  ∀ i k R lastSeenSeq, e = .node i (.runQuery k .answered) →
    c₁.cleared (.frame i k) = some (u, R) → Uuid.parse R = some r →
    c.waitsFor (.frame i k) = some (.selectHistory R lastSeenSeq) →
    ∀ m ∈ c.db.messages, m.roomId = r → m ∈ c₁.db.messages

/-- The state after the DELETE: the user is no member, no `join_room` has passed its check since,
and what is underway to the user's sockets was there in `c₁`. -/
structure Outside (c₁ : Cluster) (u : UserId) (r : Uuid) (c : Cluster) : Prop where
  agrees : c.Agrees
  logged : ∀ n ∈ c.nodes, n.RoomsLogged
  backed : ∀ n ∈ c.nodes, n.Backed
  absent : (r, u) ∉ c.db.roomMembers
  cleared : ∀ q R, Uuid.parse R = some r → c.cleared q = some (u, R) →
    c₁.cleared q = some (u, R)
  old : ∀ n ∈ c.nodes, ∀ s m, n.Underway s m → n.socketUsers[s]? = some u → m.roomId = r →
    m ∈ c₁.db.messages

/-- The DELETE. -/
theorem outside_of_leave (hagrees : c₁.Agrees)
    (hnodes : ∀ n ∈ c₁.nodes, n.RoomsLogged ∧ n.Backed) {e : ClusterEvent}
    (hleaves : Leaves u r c₀ e) (hstep : c₀.step e = some c₁) : Outside c₁ u r c₁ where
  agrees := hagrees
  logged n hn := (hnodes n hn).1
  backed n hn := (hnodes n hn).2
  absent := by
    obtain ⟨d, hd, hdeleted⟩ := Option.bind_eq_some_iff.mp hleaves
    rcases db_of_step hstep with ⟨hnone, -⟩ | ⟨d', hd', hdb⟩
    · rw [hnone] at hd
      cases hd
    · obtain rfl := Option.some.inj (hd.symm.trans hd')
      exact Db.not_member_of_delete hdeleted hdb
  cleared _ _ _ := id
  old n hn s m hm _ _ := by
    rw [← hagrees n hn]
    exact (hnodes n hn).2.underway s m hm

/-- **Step lemma.** Nothing new comes to be underway to the sockets of the user. -/
theorem Outside.step (h : Outside c₁ u r c) {e : ClusterEvent} (hrejoins : ¬ Rejoins u r c e)
    (hwithdrawn : Withdrawn c₁ u r c e) (hserved : Served c₁ u r c e)
    (hstep : c.step e = some c') : Outside c₁ u r c' := by
  refine ⟨h.agrees.step hstep,
    h.agrees.forall_nodes (fun h hstep ↦ h.step hstep) h.logged hstep,
    h.agrees.forall_nodes (fun h hstep ↦ h.step hstep) h.backed hstep, fun hmember ↦ ?_,
    fun q R hr hcleared ↦ ?_, fun n' hn' s m hm hs hroom ↦ ?_⟩
  · rcases db_of_step hstep with ⟨-, hdb⟩ | ⟨d, hd, hdb⟩
    · exact h.absent (hdb ▸ hmember)
    · rcases Db.member_of_step hdb hmember with hmember | hinserted
      · exact h.absent hmember
      · exact hrejoins (by rw [Rejoins, hd, Option.bind_some, hinserted])
  · rcases cleared_of_step h.agrees hstep hcleared hr with hcleared | ⟨-, hmember⟩
    · exact h.cleared q R hr hcleared
    · exact absurd hmember h.absent
  · obtain ⟨i, hget'⟩ := List.mem_iff_getElem?.mp hn'
    obtain ⟨n, hget, hdb, -, hcases⟩ := h.agrees.node_cases hstep hget'
    have hn := List.mem_of_getElem? hget
    -- The socket has been there before, with the same user.
    have hold : ∀ {e'}, n.step e' = some n' → n.Underway s m → m ∈ c₁.db.messages := by
      intro e' hstep' hm
      obtain ⟨userId, hs'⟩ := (h.backed n hn).addressed s m hm
      obtain rfl := Option.some.inj ((Node.socketUser_of_step hstep' hs').symm.trans hs)
      exact h.old n hn s m hm hs' hroom
    rcases hcases with rfl | ⟨e', rfl, hstep'⟩ | ⟨d, -, hstep'⟩
    · exact h.old _ hn s m hm hs hroom
    · rcases Node.underway_of_step hstep' hm with hm | ⟨rfl, R, hopen, hm⟩ |
        ⟨k, task, R, lastSeenSeq, rfl, htask, hsocket, hstate, hr, hm⟩
      · exact hold hstep' hm
      · -- The buffer of the room is flushed to those who have asked to join it.
        obtain ⟨hmem, haccepts⟩ := List.mem_filter.mp hopen
        obtain ⟨socket, hsocket⟩ := Node.socket_of_accepts haccepts
        have hs' := Node.socketUsers_get hsocket
        obtain rfl := Option.some.inj ((Node.socketUser_of_step hstep' hs').symm.trans hs)
        obtain rfl : R = r.text := by rw [← (h.backed n hn).keyed R m hm, hroom]
        by_contra hnew
        exact hwithdrawn i n rfl hget ⟨m, hm, hnew⟩ s hs' haccepts ((h.logged n hn s _).mp hmem)
      · -- A history query of the user's has passed its check before.
        have hs' := (h.backed n hn).handlers task (List.mem_of_getElem? htask)
        rw [hsocket] at hs'
        obtain rfl := Option.some.inj ((Node.socketUser_of_step hstep' hs').symm.trans hs)
        rw [hroom] at hr
        refine hserved i k R lastSeenSeq rfl (h.cleared (.frame i k) R hr ?_) hr ?_ m (hdb ▸ hm)
          hroom
        · rw [Cluster.cleared, hget, Option.bind_some, htask, Option.bind_some, hstate]
          rfl
        · rw [waitsFor, hget, Option.bind_some, htask, Option.bind_some, Task.statement, hstate]
          rfl
    · rcases Node.underway_of_step hstep' hm with hm | ⟨hflush, -⟩ | ⟨_, _, _, _, hquery, -⟩
      · exact hold hstep' hm
      · cases hflush
      · cases hquery

/-- In every run of any number of nodes in which a user leaves a room over HTTP and does not become
a member again: if, from the DELETE on, no node flushes a new message of the room while it has a
socket of the user that it can reach and that has asked to join the room without having been taken
out of it since, and no `join_room` of the user that had passed its check before the DELETE queries
the history after a new message, then no message of the room that was committed after the DELETE is
sent to any socket of the user on any node. -/
theorem http_leave_ends_delivery {nodeIds : List JsString} {es₁ es₂ : List ClusterEvent}
    {e : ClusterEvent} (hbefore : run step (start nodeIds) es₁ = some c₀)
    (hleaves : Leaves u r c₀ e) (hstep : c₀.step e = some c₁) (hafter : run step c₁ es₂ = some c)
    (hrejoins : Guarded step (fun c e ↦ ¬ Rejoins u r c e) c₁ es₂)
    (hwithdrawn : Guarded step (Withdrawn c₁ u r) c₁ es₂)
    (hserved : Guarded step (Served c₁ u r) c₁ es₂) :
    ∀ n ∈ c.nodes, ∀ s, n.socketUsers[s]? = some u →
      ∀ m ∈ Node.rowsTo n.log s, m.roomId = r → m ∈ c₁.db.messages := by
  obtain ⟨hagrees, hnodes⟩ := forall_nodes_of_run (I := fun n ↦ n.RoomsLogged ∧ n.Backed)
    (fun nodeId ↦ ⟨Node.roomsLogged_start nodeId, Node.backed_start nodeId⟩)
    (fun h hstep ↦ ⟨h.1.step hstep, h.2.step hstep⟩)
    (run_concat_eq_some.mpr ⟨c₀, hbefore, hstep⟩)
  have houtside := guarded_invariant (Outside c₁ u r)
    (fun h hguard hstep ↦ h.step hguard.1 hguard.2.1 hguard.2.2 hstep)
    (outside_of_leave hagrees hnodes hleaves hstep)
    (hrejoins.and (hwithdrawn.and hserved)) hafter
  exact fun n hn s hs m hm hroom ↦ houtside.old n hn s m (Or.inl (Or.inl hm)) hs hroom

/-- Two users become members of a room, and the first of them joins it with a socket. -/
def memberJoins : List ClusterEvent :=
  [.db (.createUser [0x61] [0x61]), .db (.createUser [0x62] [0x62]), .db (.createRoom .nil),
    .request [0x61] (.join Uuid.nil.text), .runStatement 0 .answered, .resume 0,
    .runStatement 0 .answered, .request [0x62] (.join Uuid.nil.text), .runStatement 1 .answered,
    .resume 1, .runStatement 1 .answered, .node 0 (.connect [0x61]), .node 0 Node.joinNil,
    .node 0 (.runQuery 0 .answered), .node 0 (.resume 0), .node 0 (.pg (.execCommand 0 true)),
    .node 0 (.pg (.resumeCall 0)), .node 0 (.resume 0), .node 0 (.runQuery 0 .answered),
    .node 0 (.resume 0), .node 0 (.deliver 0), .node 0 .immediate,
    .request [0x61] (.leave Uuid.nil.text)]

/-- The second user posts a message, which comes to the node. -/
def otherPosts : List ClusterEvent :=
  [.request [0x62] (.postMessage Uuid.nil.text [0x68]), .runStatement 3 .answered, .resume 3,
    .beginInsert 3, .db (.assignSequence 0), .db (.setUsername 0), .db (.store 0),
    .db (.commit 0), .node 0 (.deliver 0)]

/-- The socket sends `leave_room`, too, and the second user posts a message. -/
def bothLeave : List ClusterEvent :=
  .node 0 (.frame 0 (.leaveRoom ⟨Uuid.nil.text, Uuid.nil.text_ne_nil⟩)) :: otherPosts

/-- The user leaves over HTTP as well as over the socket, and is not sent the next message. -/
theorem http_leave_ends_delivery_of_both :
    ∃ c₀, run step (start [[0x6E]]) memberJoins = some c₀ ∧
      ∃ c₁, c₀.step (.runStatement 2 .answered) = some c₁ ∧
        ∃ c, run step c₁ (bothLeave ++ [.node 0 .flush]) = some c ∧
          (∃ m ∈ c.db.messages, m.roomId = .nil ∧ m ∉ c₁.db.messages) ∧
          ∀ n ∈ c.nodes, ∀ s, n.socketUsers[s]? = some [0x61] →
            ∀ m ∈ Node.rowsTo n.log s, m.roomId = .nil → m ∈ c₁.db.messages := by
  refine exists_run_of_any (fun c₀ : Cluster ↦ Leaves [0x61] .nil c₀ (.runStatement 2 .answered) ∧
    (c₀.step (.runStatement 2 .answered)).any (fun c₁ ↦
      decide (Guarded step (fun c e ↦ ¬ Rejoins [0x61] .nil c e) c₁
        (bothLeave ++ [.node 0 .flush])) &&
      (run step c₁ (bothLeave ++ [.node 0 .flush])).any fun c ↦
        decide (∃ m ∈ c.db.messages, m.roomId = .nil ∧ m ∉ c₁.db.messages)) = true)
    (by decide +kernel) ?_
  rintro c₀ hbefore ⟨hleaves, hany⟩
  obtain ⟨c₁, hstep, hany⟩ := (Option.any_eq_true _ _).mp hany
  obtain ⟨hguard, hany⟩ := Bool.and_eq_true_iff.mp hany
  obtain ⟨c, hafter, hnew⟩ := (Option.any_eq_true _ _).mp hany
  refine ⟨c₁, hstep, c, hafter, of_decide_eq_true hnew, http_leave_ends_delivery hbefore hleaves
    hstep hafter (of_decide_eq_true hguard) (guarded_append.mpr ⟨?_, ?_⟩) ?_⟩
  · refine (guarded_of_forall (fun e : ClusterEvent ↦ ∀ i, e ≠ .node i .flush) ?_ _).mono
      fun c e he i n hflush ↦ absurd hflush (he i)
    simp [bothLeave, otherPosts]
  · -- The room is empty at the flush.
    refine fun t ht ↦ ⟨fun i n _ hget _ s _ _ hrequested ↦ ?_, fun _ _ ↦ trivial⟩
    have hrun := run_append_eq_some.mpr ⟨c₁, run_concat_eq_some.mpr ⟨c₀, hbefore, hstep⟩, ht⟩
    have hvacant := of_run_eq_some (fun t : Cluster ↦
      ∀ n ∈ t.nodes, (n.socketsOf Uuid.nil.text).size = 0) hrun (by decide +kernel)
    obtain ⟨-, hlogged⟩ :=
      forall_nodes_of_run Node.roomsLogged_start (fun h hstep ↦ h.step hstep) hrun
    have hn := List.mem_of_getElem? hget
    exact Node.vacant_iff.mp (hvacant n hn) s ((hlogged n hn s _).mpr hrequested)
  · refine (guarded_of_forall (fun e : ClusterEvent ↦ ∀ i k, e ≠ .node i (.runQuery k .answered))
      ?_ _).mono fun c e he i k R x hquery ↦ absurd hquery (he i k)
    simp [bothLeave, otherPosts]

/-- The user leaves over HTTP only: the socket, which joined while the user was a member, is sent
the next message. -/
theorem delivered_after_http_leave :
    ∃ c₀, run step (start [[0x6E]]) memberJoins = some c₀ ∧
      (.nil, [0x61]) ∈ c₀.db.roomMembers ∧
      (∃ n ∈ c₀.nodes, .replied 0 0 (.joinedRoom Uuid.nil.text) ∈ n.log) ∧
      Leaves [0x61] .nil c₀ (.runStatement 2 .answered) ∧
      ∃ c₁, c₀.step (.runStatement 2 .answered) = some c₁ ∧
        Guarded step (fun c e ↦ ¬ Rejoins [0x61] .nil c e) c₁
          (otherPosts ++ [.node 0 .flush, .node 0 .immediate]) ∧
        ∃ c, run step c₁ (otherPosts ++ [.node 0 .flush, .node 0 .immediate]) = some c ∧
          ∃ n ∈ c.nodes, n.socketUsers[0]? = some [0x61] ∧
            ∃ m ∈ Node.rowsTo n.log 0, m.roomId = .nil ∧ m ∉ c₁.db.messages := by
  refine exists_run_of_any (fun c₀ : Cluster ↦ ((.nil, [0x61]) ∈ c₀.db.roomMembers ∧
    (∃ n ∈ c₀.nodes, .replied 0 0 (.joinedRoom Uuid.nil.text) ∈ n.log) ∧
    Leaves [0x61] .nil c₀ (.runStatement 2 .answered)) ∧
    (c₀.step (.runStatement 2 .answered)).any (fun c₁ ↦
      decide (Guarded step (fun c e ↦ ¬ Rejoins [0x61] .nil c e) c₁
        (otherPosts ++ [.node 0 .flush, .node 0 .immediate])) &&
      (run step c₁ (otherPosts ++ [.node 0 .flush, .node 0 .immediate])).any fun c ↦
        decide (∃ n ∈ c.nodes, n.socketUsers[0]? = some [0x61] ∧
          ∃ m ∈ Node.rowsTo n.log 0, m.roomId = .nil ∧ m ∉ c₁.db.messages)) = true)
    (by decide +kernel) ?_
  rintro c₀ - ⟨⟨hmember, hjoined, hleaves⟩, hany⟩
  obtain ⟨c₁, hstep, hany⟩ := (Option.any_eq_true _ _).mp hany
  obtain ⟨hguard, hany⟩ := Bool.and_eq_true_iff.mp hany
  obtain ⟨c, hrun, hsent⟩ := (Option.any_eq_true _ _).mp hany
  exact ⟨hmember, hjoined, hleaves, c₁, hstep, of_decide_eq_true hguard, c, hrun,
    of_decide_eq_true hsent⟩

end Cluster

end PostgresChat
