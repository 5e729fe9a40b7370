import PostgresChat.Cluster.Authorised
import PostgresChat.Database.Followed
import PostgresChat.Node.Presence

/-!
# Presence of a user with several sockets

One row of `presence` stands for all sockets of a user in a room, on all nodes. Each join upserts
it, and each leave deletes it, whether or not the user has another socket in the room. The rooms of
a node and its subscriptions are counted by socket; `presence` is not.

So the row of a user who is in the room is there as long as only the last one out leaves: when the
DELETE of a `leave_room` runs, no open socket of the user, on any node, is in the room or about to
be told so (`LastLeaves`). Under this condition the row is kept, in whatever order joins and leaves
of any number of sockets come and whichever statements fail (`rowsKept_of_run`). A DELETE that
runs otherwise takes the row of a socket that stays (`RowsKept.step_iff`).
-/

namespace PostgresChat

open Announced Execution

/-- The row of `presence` that a `leave_room` deletes, if it is there. -/
def DbEvent.presenceDeleted : DbEvent → Option (Uuid × UserId)
  | .query (.deletePresence userId roomId) => (Uuid.parse roomId).map (·, userId)
  | _ => none

namespace Db

variable {db db' : Db} {d : DbEvent} {u : UserId} {r : Uuid}

theorem presenceDeleted_iff :
    d.presenceDeleted = some (r, u) ↔ presenceChange r d = some (.take u) := by
  cases d with
  | query q =>
    cases q with
    | deletePresence u' R =>
      simp [DbEvent.presenceDeleted, presenceChange, Option.map_eq_some_iff]
    | upsertPresence u' R nodeId => simp [DbEvent.presenceDeleted, presenceChange]
    | _ => exact ⟨by rintro ⟨⟩, by rintro ⟨⟩⟩
  | _ => exact ⟨by rintro ⟨⟩, by rintro ⟨⟩⟩

/-- A user who is present stays so, unless a DELETE of their row runs. -/
theorem mem_present_of_step (hsweep : d ≠ .query .deleteStalePresence)
    (hstep : db.step d = some db') (h : u ∈ db.present r) :
    u ∈ db'.present r ∨ d.presenceDeleted = some (r, u) := by
  rw [present_of_step hsweep hstep, presenceDeleted_iff]
  cases presenceChange r d with
  | none => exact Or.inl h
  | some change =>
    cases change with
    | put v => exact Or.inl (Set.mem_insert_of_mem v h)
    | take v =>
      by_cases hv : u = v
      · exact Or.inr (by rw [hv])
      · exact Or.inl ⟨h, hv⟩

end Db

/-- The promise of a call was rejected. -/
def HttpState.rejected : HttpState → Bool
  | .awaiting _ (.settled .rejected) => true
  | _ => false

namespace Cluster

variable {c c' : Cluster} {u : UserId} {r : Uuid}

/-- A socket of the user attends the room, on some node. -/
def Shown (c : Cluster) (u : UserId) (r : Uuid) : Prop := ∃ n ∈ c.nodes, n.Shows u r

instance (c : Cluster) (u : UserId) (r : Uuid) : Decidable (c.Shown u r) :=
  inferInstanceAs (Decidable (∃ n ∈ _, _))

/-- When the DELETE of a `leave_room` runs, no socket of the user attends the room. -/
def LastLeaves (c : Cluster) (e : ClusterEvent) : Prop :=
  ∀ p ∈ (c.dbEvent e).bind DbEvent.presenceDeleted, ¬ c.Shown p.2 p.1

instance (c : Cluster) (e : ClusterEvent) : Decidable (LastLeaves c e) :=
  inferInstanceAs (Decidable (∀ p ∈ _, ¬ _))

/-- Users whose sockets attend a room have a row. -/
def RowsKept (c : Cluster) : Prop := ∀ u r, c.Shown u r → u ∈ c.db.present r

/-! ## Statements -/

theorem waitsFor_ne_sweep {q : RequestId} : c.waitsFor q ≠ some .deleteStalePresence := by
  intro h
  cases q with
  | frame i k =>
    simp only [waitsFor, Option.bind_eq_some_iff] at h
    obtain ⟨n, -, task, -, h⟩ := h
    rw [Task.statement] at h
    split at h
    · rename_i stage _
      cases stage <;> cases h
    · cases h
  | call k =>
    simp only [waitsFor, query?, Option.bind_eq_some_iff] at h
    obtain ⟨stmt, ⟨call, -, hcall⟩, h⟩ := h
    rw [HttpCall.statement] at hcall
    split at hcall
    · rename_i stage _
      cases stage <;> cases hcall <;> cases h
    · cases hcall

/-- No request sweeps. -/
theorem eq_sweep_of_dbEvent {e : ClusterEvent} (hstep : c.step e = some c')
    (hd : c.dbEvent e = some (.query .deleteStalePresence)) :
    e = .db (.query .deleteStalePresence) := by
  rcases waitsFor_of_dbEvent hstep hd with ⟨rfl, -⟩ | ⟨q, stmt, -, hstmt, hran | hbegun⟩
  · rfl
  · cases hran
    exact absurd hstmt waitsFor_ne_sweep
  · obtain ⟨_, _, _, _, -, -, hd⟩ := insertMessage_of_insertEvent hbegun
    cases hd

/-- A statement makes no socket leave a room. -/
theorem Shown.of_statement (h : c.Shown u r) (hagrees : c.Agrees) {e : ClusterEvent} {q : Query}
    (hd : c.dbEvent e = some (.query q)) (hstep : c.step e = some c') : c'.Shown u r := by
  obtain ⟨n, hn, hshows⟩ := h
  obtain ⟨i, hget⟩ := List.mem_iff_getElem?.mp hn
  obtain ⟨n', hget', hrun, -⟩ := node_of_step hstep hget (hagrees n hn)
  refine ⟨n', List.mem_of_getElem? hget', ?_⟩
  have hsingle : ∀ {e' : Event}, run Node.step n [e'] = some n' →
      ((∃ k fate, e' = .runQuery k fate) ∨ ∃ d, e' = .db d) → n'.Shows u r := by
    intro e' hrun he'
    obtain ⟨_, hstep', hnil⟩ := run_cons_eq_some.mp hrun
    exact hshows.of_statement he' (hstep'.trans hnil)
  have hwatches : run Node.step n ((c.dbEvent e).toList.map .db) = some n' → n'.Shows u r := by
    rw [hd]
    exact fun hrun ↦ hsingle hrun (Or.inr ⟨_, rfl⟩)
  cases e with
  | node j e' =>
    rw [project] at hrun
    split at hrun
    · rename_i hij
      subst hij
      refine hsingle hrun ?_
      rw [dbEvent, hget, Option.bind_some] at hd
      cases e' with
      | runQuery k fate => exact Or.inl ⟨k, fate, rfl⟩
      | db d => exact Or.inr ⟨d, rfl⟩
      | beginInsert k =>
        obtain ⟨stmt, -, hd⟩ := Option.bind_eq_some_iff.mp hd
        obtain ⟨_, _, _, _, -, -, hd⟩ := insertMessage_of_insertEvent hd
        cases hd
      | _ => cases hd
    · exact hwatches hrun
  | _ => exact hwatches hrun

/-! ## Rows -/

/-- A socket comes to attend a room when the upsert of its `join_room` runs. -/
theorem shown_of_step (hagrees : c.Agrees) (htracked : ∀ n ∈ c.nodes, n.Tracked)
    {e : ClusterEvent} (hstep : c.step e = some c') (h : c'.Shown u r) :
    c.Shown u r ∨ u ∈ c'.db.present r := by
  obtain ⟨n', hn', hshows⟩ := h
  obtain ⟨i, hget'⟩ := List.mem_iff_getElem?.mp hn'
  obtain ⟨n, hget, hdb, -, hcases⟩ := hagrees.node_cases hstep hget'
  have hn := List.mem_of_getElem? hget
  rcases hcases with rfl | ⟨e', rfl, hstep'⟩ | ⟨d, -, hstep'⟩
  · exact Or.inl ⟨_, hn, hshows⟩
  · refine ((htracked n hn).shows_of_step hstep' hshows).imp (fun h ↦ ⟨n, hn, h⟩) ?_
    rintro ⟨k, task, R, rfl, htask, rfl, hstate, hr, hexec⟩
    have hd : c.dbEvent (.node i (.runQuery k .answered)) =
        some (.query (.upsertPresence task.userId R n.pg.nodeId)) := by
      rw [dbEvent, hget, Option.bind_some, Node.dbEvent, htask, Option.bind_some, Task.statement,
        hstate]
      exact if_pos ⟨by rintro ⟨⟩, hexec⟩
    rcases db_of_step hstep with ⟨hnone, -⟩ | ⟨d, hsome, hmoved⟩
    · rw [hd] at hnone
      cases hnone
    · obtain rfl := Option.some.inj (hd.symm.trans hsome)
      rw [Db.present_of_step (by rintro ⟨⟩) hmoved, Db.presenceChange, if_pos hr]
      exact Set.mem_insert _ _
  · refine ((htracked n hn).shows_of_step hstep' hshows).imp (fun h ↦ ⟨n, hn, h⟩) ?_
    rintro ⟨k, task, R, hquery, -⟩
    cases hquery

/-- **Step lemma.** The rows are kept by the steps in which only the last socket leaves. -/
theorem RowsKept.step_iff (h : c.RowsKept) (hagrees : c.Agrees)
    (htracked : ∀ n ∈ c.nodes, n.Tracked) {e : ClusterEvent}
    (hsweep : e ≠ .db (.query .deleteStalePresence)) (hstep : c.step e = some c') :
    c'.RowsKept ↔ LastLeaves c e := by
  constructor
  · rintro hkept ⟨r, u⟩ hdeleted hshown
    obtain ⟨d, hd, hdeleted⟩ := Option.bind_eq_some_iff.mp hdeleted
    rcases db_of_step hstep with ⟨hnone, -⟩ | ⟨d', hd', hdb⟩
    · rw [hnone] at hd
      cases hd
    · obtain rfl := Option.some.inj (hd.symm.trans hd')
      rw [Db.presenceDeleted_iff] at hdeleted
      have hquery : ∃ q, d = .query q := by
        cases d with
        | query q => exact ⟨q, rfl⟩
        | _ => cases hdeleted
      obtain ⟨q, rfl⟩ := hquery
      have hgone := hkept u r (hshown.of_statement hagrees hd hstep)
      rw [Db.present_of_step (fun hq ↦ hsweep (eq_sweep_of_dbEvent hstep (hq ▸ hd))) hdb,
        hdeleted] at hgone
      exact hgone.2 rfl
  · intro hlast u r hshown'
    rcases shown_of_step hagrees htracked hstep hshown' with hshown | hpresent
    · have hpresent := h u r hshown
      rcases db_of_step hstep with ⟨-, hdb⟩ | ⟨d, hd, hdb⟩
      · rwa [hdb]
      · refine (Db.mem_present_of_step (fun hq ↦ ?_) hdb hpresent).resolve_right fun hdeleted ↦ ?_
        · exact hsweep (eq_sweep_of_dbEvent hstep (hq ▸ hd))
        · exact hlast (r, u) (Option.bind_eq_some_iff.mpr ⟨d, hd, hdeleted⟩) hshown
    · exact hpresent

/-! ## Runs -/

theorem rowsKept_start (nodeIds : List JsString) : (start nodeIds).RowsKept := by
  rintro u r ⟨n, hn, s, hs, -⟩
  obtain ⟨nodeId, -, rfl⟩ := List.mem_map.mp hn
  exact absurd hs (Nat.not_lt_zero s)

/-- **Run lemma.** -/
theorem rowsKept_of_run {nodeIds : List JsString} {es : List ClusterEvent}
    (hrun : run step (start nodeIds) es = some c)
    (hsweep : ∀ e ∈ es, e ≠ .db (.query .deleteStalePresence))
    (hlast : Guarded step LastLeaves (start nodeIds) es) : c.RowsKept := by
  have hstart := forall_nodes_of_run Node.tracked_start (fun h hstep ↦ h.step hstep)
    (run_nil (start nodeIds))
  refine (guarded_invariant (fun c : Cluster ↦ c.Agrees ∧ (∀ n ∈ c.nodes, n.Tracked) ∧ c.RowsKept)
    ?_ ⟨hstart.1, hstart.2, rowsKept_start nodeIds⟩ ((guarded_of_forall _ hsweep _).and hlast)
    hrun).2.2
  rintro c e c' ⟨hagrees, htracked, hkept⟩ ⟨hsweep, hlast⟩ hstep
  exact ⟨hagrees.step hstep, hagrees.forall_nodes (fun h hstep ↦ h.step hstep) htracked hstep,
    (hkept.step_iff hagrees htracked hsweep hstep).mpr hlast⟩

/-- In every run of any number of nodes without a presence sweep: when at each DELETE of a
`leave_room` no open socket of its user, on any node, is in the room or about to be told so, then in
every state reached, an open socket that was told `joined_room` and has not sent `leave_room` since
belongs to a user who has a row of `presence` for the room. -/
theorem presence_kept {nodeIds : List JsString} {es : List ClusterEvent}
    (hrun : run step (start nodeIds) es = some c)
    (hsweep : ∀ e ∈ es, e ≠ .db (.query .deleteStalePresence))
    (hlast : Guarded step LastLeaves (start nodeIds) es) :
    ∀ n ∈ c.nodes, ∀ s u r, n.socketUsers[s]? = some u → n.isOpen s = true →
      Node.InRoom n.log s r → ∃ row ∈ c.db.presence, row.userId = u ∧ row.roomId = r :=
  fun n hn s u r hu hopen hroom ↦ rowsKept_of_run hrun hsweep hlast u r
    ⟨n, hn, s, Node.lt_length_of_isOpen hopen, hu, hopen, Or.inl hroom⟩

/-- A user becomes a member of a room. -/
def becomesMember : List ClusterEvent :=
  [.db (.createUser [0x61] [0x61]), .db (.createRoom .nil), .request [0x61] (.join Uuid.nil.text),
    .runStatement 0 .answered, .resume 0, .runStatement 0 .answered, .resume 0]

/-- The user joins the room with the first socket of node `i`. -/
def joinsOn (i : ℕ) : List ClusterEvent :=
  [.node i (.connect [0x61]), .node i Node.joinNil, .node i (.runQuery 0 .answered),
    .node i (.resume 0), .node i (.pg (.execCommand 0 true)), .node i (.pg (.resumeCall 0)),
    .node i (.resume 0), .node i (.runQuery 0 .answered), .node i (.resume 0)]

/-- And leaves it. -/
def leavesOn (i : ℕ) : List ClusterEvent :=
  [.node i (.frame 0 (.leaveRoom ⟨Uuid.nil.text, Uuid.nil.text_ne_nil⟩)),
    .node i (.runQuery 1 .answered), .node i (.pg (.execCommand 0 true)),
    .node i (.pg (.resumeCall 1)), .node i (.resume 1), .node i (.resume 1)]

/-- No handler continues after a promise that was rejected. -/
def Succeeds (c : Cluster) : ClusterEvent → Prop
  | .node i e => ∀ n ∈ c.nodes[i]?, n.NoRejection e
  | .resume k => ∀ call ∈ c.calls[k]?, call.state.rejected = false
  | _ => True

instance (c : Cluster) : DecidablePred (Succeeds c)
  | .node .. => inferInstanceAs (Decidable (∀ n ∈ _, _))
  | .resume _ => inferInstanceAs (Decidable (∀ call ∈ _, _))
  | .request .. | .runStatement .. | .beginInsert _ | .insertSettles .. | .db _ => isTrue trivial

/-- The user joins on one node and leaves, and then joins on another. -/
theorem presence_kept_after_leave :
    ∃ c, run step (start [[0x6E], [0x6D]])
        (becomesMember ++ joinsOn 0 ++ leavesOn 0 ++ joinsOn 1) = some c ∧
      ∃ row ∈ c.db.presence, row.userId = [0x61] ∧ row.roomId = .nil := by
  refine exists_run_of_any (fun c : Cluster ↦ ∃ n ∈ c.nodes, n.socketUsers[0]? = some [0x61] ∧
    n.isOpen 0 = true ∧ Node.InRoom n.log 0 .nil) (by decide +kernel) ?_
  rintro c hrun ⟨n, hn, hu, hopen, hroom⟩
  exact presence_kept hrun (by simp [becomesMember, joinsOn, leavesOn]) (by decide +kernel) n hn 0
    [0x61] .nil hu hopen hroom

/-- The user joins on two nodes and leaves on one of them: nothing has failed and no handler is
running, but the user, whose other socket is in the room, has no row. -/
theorem presence_lost_after_leave :
    ∃ c, run step (start [[0x6E], [0x6D]])
        (becomesMember ++ joinsOn 0 ++ joinsOn 1 ++ leavesOn 1) = some c ∧
      (∀ e ∈ becomesMember ++ joinsOn 0 ++ joinsOn 1 ++ leavesOn 1,
        e ≠ .db (.query .deleteStalePresence)) ∧
      Guarded step Succeeds (start [[0x6E], [0x6D]])
        (becomesMember ++ joinsOn 0 ++ joinsOn 1 ++ leavesOn 1) ∧
      (∀ n ∈ c.nodes, n.AtRest) ∧
      (∃ n ∈ c.nodes, n.socketUsers[0]? = some [0x61] ∧ n.isOpen 0 = true ∧
        Node.InRoom n.log 0 .nil) ∧
      ∀ row ∈ c.db.presence, ¬(row.userId = [0x61] ∧ row.roomId = .nil) := by
  refine exists_run_of_any (fun c : Cluster ↦ (∀ n ∈ c.nodes, n.AtRest) ∧
    (∃ n ∈ c.nodes, n.socketUsers[0]? = some [0x61] ∧ n.isOpen 0 = true ∧
      Node.InRoom n.log 0 .nil) ∧
    ∀ row ∈ c.db.presence, ¬(row.userId = [0x61] ∧ row.roomId = .nil)) (by decide +kernel) ?_
  exact fun c _ hlost ↦ ⟨by simp [becomesMember, joinsOn, leavesOn], by decide +kernel, hlost⟩

end Cluster

end PostgresChat
