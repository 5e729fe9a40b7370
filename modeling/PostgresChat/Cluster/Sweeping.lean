import PostgresChat.Cluster.Presence

/-!
# What the presence sweep deletes

`sweepStalePresence` deletes the rows of `presence` whose `last_seen` is more than a minute ago, so
that the rows of crashed nodes go, which never update `last_seen` again. But a node that has not
crashed does not update it either: the upsert of a `join_room` is the only statement that sets
`last_seen`. Heartbeats and messages do not, however long a socket stays.

A row is therefore as old as the last `join_room` of its user for its room (`Dated`), and the sweep
spares a row exactly if there was one in the last minute (`mem_presence_of_sweep_iff`). Whether a
running node still holds the socket makes no difference.
-/

namespace PostgresChat

open Execution

/-- The row of `presence` that the upsert of a `join_room` writes. -/
def DbEvent.presenceUpserted : DbEvent → Option (Uuid × UserId)
  | .query (.upsertPresence userId roomId _) => (Uuid.parse roomId).map (·, userId)
  | _ => none

namespace Db

/-- A user joins a room, by the clock of the database. -/
structure Join where
  userId : UserId
  roomId : Uuid
  clock : ℕ

variable {db db' : Db} {d : DbEvent} {P : Join → Prop}

/-- The step is the upsert of the join. -/
def Refreshes (join : Join) (db : Db) (d : DbEvent) : Prop :=
  d.presenceUpserted = some (join.roomId, join.userId) ∧ db.now = join.clock

instance (join : Join) (db : Db) (d : DbEvent) : Decidable (Refreshes join db d) :=
  inferInstanceAs (Decidable (_ ∧ _))

/-- Every row dates from the last of the joins `P` of its user for its room. -/
structure Dated (P : Join → Prop) (db : Db) : Prop where
  joined : ∀ row ∈ db.presence, P ⟨row.userId, row.roomId, row.lastSeen⟩
  latest : ∀ row ∈ db.presence, ∀ t, P ⟨row.userId, row.roomId, t⟩ → t ≤ row.lastSeen
  past : ∀ join, P join → join.clock ≤ db.now

/-- Rows are deleted, and time passes. -/
theorem Dated.of_subset (h : Dated P db) (hrows : ∀ row ∈ db'.presence, row ∈ db.presence)
    (hnow : db.now ≤ db'.now) {P' : Join → Prop} (hP : ∀ join, P' join ↔ P join) :
    Dated P' db' where
  joined row hrow := (hP _).mpr (h.joined row (hrows row hrow))
  latest row hrow t ht := h.latest row (hrows row hrow) t ((hP _).mp ht)
  past join hjoin := Nat.le_trans (h.past join ((hP _).mp hjoin)) hnow

/-- **Step lemma.** -/
theorem Dated.step (h : Dated P db) (hstep : db.step d = some db') :
    Dated (fun join ↦ P join ∨ Refreshes join db d) db' := by
  cases hupserted : d.presenceUpserted with
  | none =>
    have hother : (∀ row ∈ db'.presence, row ∈ db.presence) → db.now ≤ db'.now →
        Dated (fun join ↦ P join ∨ Refreshes join db d) db' := by
      refine fun hrows hnow ↦ h.of_subset hrows hnow fun join ↦ or_iff_left ?_
      rw [Refreshes, hupserted]
      rintro ⟨⟨⟩, -⟩
    cases did_of_step hstep with
    | tick ms => exact hother (fun _ ↦ id) (Nat.le_add_right _ _)
    | query q _ ran =>
      cases ran with
      | upsertPresence R u nodeId r parses =>
        rw [DbEvent.presenceUpserted, parses] at hupserted
        cases hupserted
      | deletePresence => exact hother (fun _ ↦ List.mem_of_mem_filter) (Nat.le_refl _)
      | deleteStalePresence => exact hother (fun _ ↦ List.mem_of_mem_filter) (Nat.le_refl _)
      | _ => exact hother (fun _ ↦ id) (Nat.le_refl _)
    | _ => exact hother (fun _ ↦ id) (Nat.le_refl _)
  | some p =>
    rw [DbEvent.presenceUpserted.eq_def] at hupserted
    have hclock : ∀ {join : Join}, P join ∨ Refreshes join db d → join.clock ≤ db.now := fun hjoin ↦
      hjoin.elim (h.past _) fun hrefreshes ↦ Nat.le_of_eq hrefreshes.2.symm
    split at hupserted
    · rename_i u R nodeId
      cases ran_of_step_query hstep with
      | upsertPresence _ _ _ r parses =>
        have hpair : (DbEvent.query (.upsertPresence u R nodeId)).presenceUpserted =
            some (r, u) := by
          rw [DbEvent.presenceUpserted, parses, Option.map_some]
        refine ⟨fun row hrow ↦ ?_, fun row hrow t ht ↦ ?_, fun join ↦ hclock⟩
        · rcases List.mem_append.mp hrow with hrow | hrow
          · exact Or.inl (h.joined row (List.mem_of_mem_filter hrow))
          · rw [List.mem_singleton.mp hrow]
            exact Or.inr ⟨hpair, rfl⟩
        · rcases List.mem_append.mp hrow with hrow | hrow
          · -- The row is another user's, or another room's.
            obtain ⟨hold, hne⟩ := List.mem_filter.mp hrow
            refine ht.elim (h.latest row hold t) fun hrefreshes ↦ ?_
            obtain ⟨hr, hu⟩ := Prod.mk.inj (Option.some.inj (hpair.symm.trans hrefreshes.1))
            exact absurd ⟨hu.symm, hr.symm⟩ (of_decide_eq_true hne)
          · rw [List.mem_singleton.mp hrow] at ht ⊢
            exact hclock ht
    · cases hupserted

theorem mem_presence_of_sweep (hstep : db.step (.query .deleteStalePresence) = some db')
    {row : PresenceRow} :
    row ∈ db'.presence ↔ row ∈ db.presence ∧ db.now ≤ row.lastSeen + 60000 := by
  cases ran_of_step_query hstep with
  | deleteStalePresence => rw [List.mem_filter, decide_eq_true_iff, Nat.not_lt]

end Db

namespace Cluster

variable {c c' : Cluster}

/-- Node `i` is running, its socket `s` answers the heartbeat, and the row is about them: the row
names the node, and the socket is open and is one of the row's user in the row's room. -/
def ServedBy (running : ℕ → Prop) (answering : ℕ → SocketId → Prop) (c : Cluster)
    (row : PresenceRow) (i : ℕ) (s : SocketId) : Prop :=
  running i ∧ answering i s ∧ ∃ n ∈ c.nodes[i]?, n.pg.nodeId = row.nodeId ∧
    n.socketUsers[s]? = some row.userId ∧ n.isOpen s = true ∧ Node.InRoom n.log s row.roomId

/-- The upsert of the join runs. -/
def Upserts (join : Db.Join) (c : Cluster) (e : ClusterEvent) : Prop :=
  ∃ d ∈ c.dbEvent e, Db.Refreshes join c.db d

instance (join : Db.Join) (c : Cluster) (e : ClusterEvent) : Decidable (Upserts join c e) :=
  inferInstanceAs (Decidable (∃ d ∈ _, _))

theorem dated_of_run {nodeIds : List JsString} {es : List ClusterEvent}
    (hrun : run step (start nodeIds) es = some c) :
    Db.Dated (fun join ↦ Happened step (Upserts join) (start nodeIds) es) c.db := by
  refine happened_invariant Upserts (fun P (c : Cluster) ↦ Db.Dated P c.db) ?_ ?_ hrun
  · intro P c e c' h hstep
    rcases db_of_step hstep with ⟨hnone, hdb⟩ | ⟨d, hd, hdb⟩
    · rw [hdb]
      refine h.of_subset (fun _ ↦ id) (Nat.le_refl _) fun join ↦ or_iff_left ?_
      rintro ⟨d, hd, -⟩
      rw [hnone] at hd
      cases hd
    · have hupserts : ∀ join, Upserts join c e ↔ Db.Refreshes join c.db d := by
        intro join
        rw [Upserts, hd]
        simp only [Option.mem_some_iff, exists_eq_left']
      simpa only [hupserts] using h.step hdb
  · exact ⟨by rintro row ⟨⟩, by rintro row ⟨⟩, fun _ ↦ False.elim⟩

/-- A sweep spares the rows whose users have joined in the last minute. -/
theorem mem_presence_of_sweep_iff {nodeIds : List JsString} {es : List ClusterEvent}
    (hrun : run step (start nodeIds) es = some c)
    (hsweep : c.step (.db (.query .deleteStalePresence)) = some c') {row : PresenceRow}
    (hrow : row ∈ c.db.presence) :
    row ∈ c'.db.presence ↔ ∃ t, c.db.now ≤ t + 60000 ∧
      Happened step (Upserts ⟨row.userId, row.roomId, t⟩) (start nodeIds) es := by
  have hdated := dated_of_run hrun
  rcases db_of_step hsweep with ⟨hnone, -⟩ | ⟨d, hd, hdb⟩
  · cases hnone
  · cases hd
    rw [Db.mem_presence_of_sweep hdb, and_iff_right hrow]
    constructor
    · exact fun hrecent ↦ ⟨row.lastSeen, hrecent, hdated.joined row hrow⟩
    · rintro ⟨t, hrecent, hjoined⟩
      have := hdated.latest row hrow t hjoined
      omega

/-- In every run of any number of nodes that ends with a sweep, whichever nodes count as running and
whichever of their sockets as answering the heartbeat: the sweep deletes no row while the node it
names is running and has an answering, open socket of its user in its room, if and only if for every
such row there has been a `join_room` of the user for the room in the last minute. -/
theorem sweep_spares_iff {nodeIds : List JsString} {es : List ClusterEvent}
    (hrun : run step (start nodeIds) es = some c)
    (hsweep : c.step (.db (.query .deleteStalePresence)) = some c') (running : ℕ → Prop)
    (answering : ℕ → SocketId → Prop) :
    (∀ row ∈ c.db.presence, ∀ i s, ServedBy running answering c row i s →
        row ∈ c'.db.presence) ↔
      ∀ row ∈ c.db.presence, ∀ i s, ServedBy running answering c row i s →
        ∃ t, c.db.now ≤ t + 60000 ∧
          Happened step (Upserts ⟨row.userId, row.roomId, t⟩) (start nodeIds) es :=
  forall₂_congr fun _ hrow ↦ forall₃_congr fun _ _ _ ↦ mem_presence_of_sweep_iff hrun hsweep hrow

/-- A minute passes, and the socket answers every ping. -/
def answersPings : List ClusterEvent :=
  [.db (.tick 30000), .node 0 (.heartbeat 0), .node 0 (.pong 0), .db (.tick 30000),
    .node 0 (.heartbeat 0), .node 0 (.pong 0)]

/-- A minute after the user has joined, a sweep spares the row. -/
theorem sweep_spares_recent :
    ∃ c, run step (start [[0x6E]]) (becomesMember ++ joinsOn 0 ++ answersPings) = some c ∧
      ∃ c', c.step (.db (.query .deleteStalePresence)) = some c' ∧ ∃ row ∈ c.db.presence,
        ServedBy (fun _ ↦ True) (fun _ _ ↦ True) c row 0 0 ∧ row ∈ c'.db.presence := by
  refine exists_run_of_any (fun c : Cluster ↦
    (c.step (.db (.query .deleteStalePresence))).isSome = true ∧
    (c.db.now ≤ 0 + 60000 ∧ ∀ row ∈ c.db.presence, Happened step
      (Upserts ⟨row.userId, row.roomId, 0⟩) (start [[0x6E]])
      (becomesMember ++ joinsOn 0 ++ answersPings)) ∧
    ∃ row ∈ c.db.presence, True ∧ True ∧ ∃ n ∈ c.nodes[0]?, n.pg.nodeId = row.nodeId ∧
      n.socketUsers[0]? = some row.userId ∧ n.isOpen 0 = true ∧
      Node.InRoom n.log 0 row.roomId) (by decide +kernel) ?_
  rintro c hrun ⟨hsome, ⟨hnow, hjoined⟩, row, hrow, hserved⟩
  obtain ⟨c', hsweep⟩ := Option.isSome_iff_exists.mp hsome
  have hserved : ServedBy (fun _ ↦ True) (fun _ _ ↦ True) c row 0 0 := hserved
  refine ⟨c', hsweep, row, hrow, hserved, ?_⟩
  exact (sweep_spares_iff hrun hsweep _ _).mpr
    (fun row hrow _ _ _ ↦ ⟨0, hnow, hjoined row hrow⟩) row hrow 0 0 hserved

/-- A millisecond later it deletes the row: the node is running, and its socket, which is open, is
in the room and has answered every ping, has lost its presence. -/
theorem sweep_deletes_served :
    ∃ c, run step (start [[0x6E]])
        (becomesMember ++ joinsOn 0 ++ answersPings ++ [.db (.tick 1)]) = some c ∧
      ∃ c', c.step (.db (.query .deleteStalePresence)) = some c' ∧
        ∃ row ∈ c.db.presence, row ∉ c'.db.presence ∧ ∃ n ∈ c.nodes[0]?,
          n.pg.nodeId = row.nodeId ∧ n.socketUsers[0]? = some row.userId ∧ n.isOpen 0 = true ∧
          n.sockets[0]?.map Socket.isAlive = some true ∧ Node.InRoom n.log 0 row.roomId := by
  refine exists_run_of_any (fun c : Cluster ↦
    (c.step (.db (.query .deleteStalePresence))).any (fun c' ↦ decide (
      ∃ row ∈ c.db.presence, row ∉ c'.db.presence ∧ ∃ n ∈ c.nodes[0]?,
        n.pg.nodeId = row.nodeId ∧ n.socketUsers[0]? = some row.userId ∧ n.isOpen 0 = true ∧
        n.sockets[0]?.map Socket.isAlive = some true ∧ Node.InRoom n.log 0 row.roomId)) = true)
    (by decide +kernel) ?_
  rintro c - hlost
  obtain ⟨c', hsweep, hlost⟩ := (Option.any_eq_true _ _).mp hlost
  exact ⟨c', hsweep, of_decide_eq_true hlost⟩

end Cluster

end PostgresChat
