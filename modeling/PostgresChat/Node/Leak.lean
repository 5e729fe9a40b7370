import PostgresChat.Node.Calm

/-!
# Subscriptions of rooms without sockets

The reference count of a room goes up once for each join that passes its check. It comes down by one
when the handler of a `leave_room` unsubscribes, and by one when a frame or a cleanup takes the last
socket out of the room, however many joins have been counted for the sockets that are gone. So a
room without sockets is out of the counts, once all handlers have ended, only if those that still
unsubscribe are as many as what is left of its count.

`CountsMatch` asks for this where it can fail: when a step takes the last socket out of a room, and
when a join passes its check after its socket has been taken out. It holds when one socket joins a
room once and leaves or closes after its join has passed; it does not when two sockets join a room
and close, when a socket joins twice, or when it closes before the check.
-/

namespace PostgresChat

open Execution

namespace Node

variable {n n' : Node} {R : RoomId} {s : SocketId}

/-- The number of `leave_room` handlers of the room that have not unsubscribed yet. -/
def pendingLeaves (n : Node) (R : RoomId) : ℕ :=
  (n.tasks.map Task.key).countP fun key ↦ key.2.bind Stage.leaving = some R

/-- Where a room is without sockets after a step, its count is at most what the handlers that will
still unsubscribe take off it. -/
def CountsMatch (n : Node) (e : Event) : Prop :=
  -- A `leave_room` of the last socket: its frame unsubscribes, and its handler will again.
  (∀ l ∈ e.leaves, n.empties l.2 l.1 → n.pg.roomCount l.2 ≤ n.pendingLeaves l.2 + 2) ∧
  -- A cleanup of the last socket unsubscribes once.
  (∀ s ∈ n.cleansUp e, ∀ R ∈ n.roomSockets.keys, s ∈ n.socketsOf R → n.empties R s →
    n.pg.roomCount R ≤ n.pendingLeaves R + 1) ∧
  -- A join passes its check when there is no socket in the room any more.
  ∀ R ∈ n.subscribes e, n.Vacant R → n.pg.roomCount R + 1 ≤ n.pendingLeaves R

instance (n : Node) (e : Event) : Decidable (CountsMatch n e) :=
  inferInstanceAs (Decidable (_ ∧ _ ∧ _))

/-- The count of a room without sockets is used up by the handlers that will still unsubscribe. -/
def Accounted (n : Node) : Prop := ∀ R, n.Vacant R → n.pg.roomCount R ≤ n.pendingLeaves R

/-! ## Steps -/

theorem pendingLeaves_of_key_eq (h : n'.tasks.map Task.key = n.tasks.map Task.key) (R : RoomId) :
    n'.pendingLeaves R = n.pendingLeaves R := by
  rw [pendingLeaves, pendingLeaves, h]

/-- A new handler. -/
theorem pendingLeaves_append {task : Task} (h : n'.tasks = n.tasks ++ [task]) (R : RoomId) :
    n'.pendingLeaves R =
      n.pendingLeaves R + if task.stage?.bind Stage.leaving = some R then 1 else 0 := by
  rw [pendingLeaves, pendingLeaves, h, List.map_append, List.countP_append]
  simp [Task.key, List.countP_cons]

/-- A handler goes on. -/
theorem pendingLeaves_set {k : ℕ} {task task' : Task} (hget : n.tasks[k]? = some task)
    (h : n'.tasks = n.tasks.set k task') (R : RoomId) :
    n'.pendingLeaves R + (if task.stage?.bind Stage.leaving = some R then 1 else 0) =
      n.pendingLeaves R + if task'.stage?.bind Stage.leaving = some R then 1 else 0 := by
  obtain ⟨hlt, rfl⟩ := List.getElem?_eq_some_iff.mp hget
  have hlt' : k < (n.tasks.map Task.key).length := by rwa [List.length_map]
  have hpos : n.tasks[k].stage?.bind Stage.leaving = some R → 0 < n.pendingLeaves R := fun hR ↦
    List.countP_pos_iff.mpr ⟨n.tasks[k].key,
      List.mem_map_of_mem (List.getElem_mem hlt), decide_eq_true hR⟩
  rw [pendingLeaves, h, List.map_set, List.countP_set hlt', List.getElem_map]
  rw [pendingLeaves] at hpos ⊢
  by_cases hold : n.tasks[k].stage?.bind Stage.leaving = some R <;>
    by_cases hnew : task'.stage?.bind Stage.leaving = some R <;>
      simp only [Task.key, hold, hnew, decide_true, decide_false, Bool.false_eq_true, if_true,
        if_false, Nat.sub_zero, Nat.add_zero]
  · have := hpos hold
    omega
  · have := hpos hold
    omega

/-- A frame. -/
theorem Accounted.receive (h : Accounted n) {userId : UserId} (hu : userId ≠ [])
    {frame : ClientFrame}
    (hmatch : CountsMatch n (.frame s frame)) (hreceived : Received n n' s userId frame) :
    Accounted n' := by
  intro R hvacant
  have hpending := pendingLeaves_append hreceived.tasks R
  rw [leaving_firstState s hu] at hpending
  rw [vacant_congr hreceived.rooms, vacant_iff] at hvacant
  rw [hpending, hreceived.pg]
  rcases updateRooms_cases frame with ⟨payload, rfl⟩ | ⟨payload, rfl⟩ | hother
  · refine Nat.le_trans (h R (vacant_iff.mpr fun s' hs' ↦ hvacant s' ?_)) (Nat.le_add_right _ _)
    exact mem_socketsOf_updateRooms_join.mpr (Or.inr hs')
  · have hlast : ∀ s', s' ∈ n.socketsOf R → R = payload.roomId ∧ s' = s := by
      intro s' hs'
      by_contra hne
      exact hvacant s' (mem_socketsOf_updateRooms_leave.mpr ⟨hs', hne⟩)
    rw [roomCount_updateRooms_leave]
    by_cases hempties : R = payload.roomId ∧ n.empties payload.roomId s
    · obtain ⟨rfl, hempties'⟩ := hempties
      have : n.pg.roomCount payload.roomId ≤ n.pendingLeaves payload.roomId + 2 :=
        hmatch.1 (s, payload.roomId) rfl hempties'
      rw [if_pos ⟨rfl, hempties'⟩, if_pos rfl]
      omega
    · rw [if_neg hempties]
      refine Nat.le_trans (h R ?_) (Nat.le_add_right _ _)
      by_cases hR : R = payload.roomId
      · subst hR
        refine vacant_of_empties_eq_false (Bool.eq_false_of_not_eq_true fun he ↦ ?_)
          fun s' hs' ↦ (hlast s' hs').2
        exact hempties ⟨rfl, he⟩
      · exact vacant_iff.mpr fun s' hs' ↦ hR (hlast s' hs').1
  · rw [(hother n _ s).1] at hvacant ⊢
    exact Nat.le_trans (h R (vacant_iff.mpr hvacant)) (Nat.le_add_right _ _)

/-- A cleanup. -/
theorem Accounted.cleaned (h : Accounted n) {e : Event} (hmatch : CountsMatch n e)
    (hcleans : n.cleansUp e = some s) (hcleaned : Cleaned n n' s) : Accounted n' := by
  intro R hvacant
  have hpending : n'.pendingLeaves R = n.pendingLeaves R :=
    pendingLeaves_of_key_eq (congrArg (List.map Task.key) hcleaned.same.1) R
  rw [hpending, hcleaned.counts]
  by_cases hlast : s ∈ n.socketsOf R ∧ n.empties R s
  · have := hmatch.2.1 s hcleans R (mem_keys_of_mem_socketsOf hlast.1) hlast.1 hlast.2
    rw [if_pos hlast]
    omega
  · rw [if_neg hlast]
    refine h R (vacant_iff.mpr fun s' hs' ↦ ?_)
    have hs : ∀ s', s' ∈ n.socketsOf R → s' = s := by
      intro s' hs'
      by_contra hne
      exact vacant_iff.mp hvacant s' ((hcleaned.rooms s' R).mpr ⟨hs', hne⟩)
    obtain rfl := hs s' hs'
    refine vacant_iff.mp (vacant_of_empties_eq_false (Bool.eq_false_of_not_eq_true fun he ↦ ?_) hs)
      s' hs'
    exact hlast ⟨hs', he⟩

/-- A continuation. -/
theorem Accounted.resume (h : Accounted n) {k : ℕ} {task : Task} {stage : Stage}
    {settled : Settled} (hmatch : CountsMatch n (.resume k)) (hno : n.NoRejection (.resume k))
    (hresumed : Resumed n n' k task stage settled) : Accounted n' := by
  obtain ⟨hsame, hrooms, hpg, -⟩ := observeCheck_frame n k stage settled
  obtain ⟨promise, hstate, -⟩ := hresumed.awaiting
  have hupcoming := upcoming_of_resumed hresumed
  intro R hvacant
  rw [vacant_congr (hresumed.turned.rooms.trans hrooms)] at hvacant
  have hle := h R hvacant
  have hpending := pendingLeaves_set hresumed.get
    (hresumed.turned.tasks.trans (by rw [hsame.tasks])) R
  rw [stage?_afterTurn, stage?_eq hstate] at hpending
  rw [hresumed.turned.pg, hpg]
  rcases resume_cases stage settled with
    ⟨R', lastSeenSeq, rfl, hnext⟩ | ⟨R', rfl, hnext⟩ | ⟨hordinary, hleave⟩
  · rw [hnext] at hpending ⊢
    have hjoined := hmatch.2.2 R' (by rw [subscribes, hupcoming, hnext]; rfl)
    change (n.pg.subscribeToRoomChannel R').roomCount R ≤ _
    rw [PostgresService.roomCount_subscribe]
    simp only [Next.stage?, Option.bind_some, Stage.leaving, reduceCtorEq, if_false] at hpending
    split
    · rename_i hR
      subst hR
      have := hjoined hvacant
      omega
    · omega
  · rw [hnext] at hpending ⊢
    change (n.pg.unsubscribeFromRoomChannel R').roomCount R ≤ _
    rw [PostgresService.roomCount_unsubscribe]
    simp only [Next.stage?, Option.bind_some, Stage.leaving, reduceCtorEq, if_false,
      Option.some.injEq] at hpending
    split
    · rename_i hR
      subst hR
      rw [if_pos rfl] at hpending
      omega
    · rename_i hR
      rw [if_neg (Ne.symm hR)] at hpending
      omega
  · rw [hordinary.pg]
    have hstage : stage.leaving = none := by
      cases stage with
      | leavePresence R' =>
        obtain rfl := hleave R' rfl
        exact absurd hupcoming hno
      | _ => rfl
    rw [hordinary.leaving, Option.bind_some, hstage] at hpending
    simp only [reduceCtorEq, if_false, Nat.add_zero] at hpending
    omega

/-- **Step lemma.** -/
theorem Accounted.step (h : Accounted n) (hpg : n.pg.Undisturbed) {e : Event} (he : e.Calm)
    (hno : n.NoRejection e) (hmatch : CountsMatch n e) (hstep : n.step e = some n') :
    Accounted n' := by
  have hframe : n'.roomSockets = n.roomSockets → n'.tasks.map Task.key = n.tasks.map Task.key →
      (∀ R, n'.pg.roomCount R = n.pg.roomCount R) → Accounted n' := by
    intro hrooms hkeys hcount R hvacant
    rw [pendingLeaves_of_key_eq hkeys, hcount]
    exact h R ((vacant_congr hrooms).mp hvacant)
  cases stepped_of_step hstep with
  | connected => exact h
  | received s frame socket _ _ hreceived =>
    exact h.receive socket.userId_ne_nil hmatch hreceived
  | resumed k task stage settled _ hresumed => exact h.resume hmatch hno hresumed
  | marked _ s _ _ hmarked =>
    exact hframe hmarked.quiet.rooms hmarked.quiet.handlers fun R ↦ by rw [hmarked.pg]
  | cleaned _ s _ _ hcleansUp hcleaned => exact h.cleaned hmatch hcleansUp hcleaned
  | quiet _ _ hq hquiet =>
    exact hframe hquiet.rooms hquiet.handlers (roomCount_of_quiet_step hpg he hq hstep)

/-! ## Runs -/

theorem accounted_start (nodeId : JsString) : Accounted (start nodeId) := fun _ _ ↦ Nat.le_refl 0

/-- In every run in which no command fails, no promise is rejected and the counts match: once no
handler or command is outstanding, a room without sockets has no count, and the node's connection
does not listen on its channel. -/
theorem no_subscription_leak {nodeId : JsString} {es : List Event}
    (hrun : run step (start nodeId) es = some n)
    (hcalm : Guarded step (fun n e ↦ e.Calm ∧ n.NoRejection e) (start nodeId) es)
    (hmatch : Guarded step CountsMatch (start nodeId) es) (hrest : n.AtRest)
    (hvacant : n.Vacant R) :
    n.pg.roomSubscriptionCounts.get R = none ∧ ¬ n.pg.ListensOn (getRoomNotifyChannel R) := by
  obtain ⟨hpg, haccounted⟩ := guarded_invariant (fun n ↦ n.pg.Undisturbed ∧ Accounted n)
    (fun hinv he hstep ↦ ⟨undisturbed_step hinv.1 he.1.1 hstep,
      hinv.2.step hinv.1 he.1.1 he.1.2 he.2 hstep⟩)
    ⟨PostgresService.undisturbed_ready nodeId, accounted_start nodeId⟩ (hcalm.and hmatch) hrun
  have hended : n.pendingLeaves R = 0 := by
    rw [pendingLeaves, List.countP_eq_zero]
    intro key hkey
    obtain ⟨task, htask, rfl⟩ := List.mem_map.mp hkey
    rw [Task.key, Task.stage?, hrest.tasks task htask]
    exact Bool.false_ne_true
  have hzero : n.pg.roomCount R = 0 := Nat.le_zero.mp (hended ▸ haccounted R hvacant)
  exact ⟨hpg.agreement.get_eq_none hzero,
    fun h ↦ (hpg.listensOn_iff hrest.queues).mp h hzero⟩

/-- A member joins a room and leaves it. -/
theorem no_subscription_leak_after_leave :
    ∃ n, run step (start []) [.db (.createUser [0x61] [0x61]), .db (.createRoom .nil),
        .db (.query (.insertMember Uuid.nil.text [0x61])), .connect [0x61],
        .frame 0 (.joinRoom ⟨⟨Uuid.nil.text, by decide⟩, none, by decide⟩),
        .runQuery 0 .answered, .resume 0, .pg (.execCommand 0 true), .pg (.resumeCall 0), .resume 0,
        .runQuery 0 .answered, .resume 0,
        .frame 0 (.leaveRoom ⟨Uuid.nil.text, by decide⟩), .pg (.execCommand 0 true),
        .pg (.resumeCall 1), .runQuery 1 .answered, .resume 1, .resume 1] = some n ∧
      n.pg.roomSubscriptionCounts.get Uuid.nil.text = none ∧
      ¬ n.pg.ListensOn (getRoomNotifyChannel Uuid.nil.text) := by
  refine exists_run_of_any (fun n : Node ↦ n.AtRest ∧ n.Vacant Uuid.nil.text) (by decide) ?_
  rintro n hrun ⟨hrest, hvacant⟩
  exact no_subscription_leak hrun (by decide) (by decide) hrest hvacant

/-- Two sockets join a room, and both close: nothing has failed and nothing is outstanding, but the
room is still counted and listened on. -/
theorem subscription_leaks_after_closes :
    ∃ es n, run step (start []) es = some n ∧
      Guarded step (fun n e ↦ e.Calm ∧ n.NoRejection e) (start []) es ∧ n.AtRest ∧
      n.Vacant Uuid.nil.text ∧ n.pg.roomSubscriptionCounts.get Uuid.nil.text = some 1 ∧
      n.pg.ListensOn (getRoomNotifyChannel Uuid.nil.text) := by
  refine ⟨[.db (.createUser [0x61] [0x61]), .db (.createRoom .nil),
    .db (.query (.insertMember Uuid.nil.text [0x61])), .connect [0x61], .connect [0x61],
    .frame 0 (.joinRoom ⟨⟨Uuid.nil.text, by decide⟩, none, by decide⟩),
    .runQuery 0 .answered, .resume 0, .pg (.execCommand 0 true), .pg (.resumeCall 0), .resume 0,
    .runQuery 0 .answered, .resume 0,
    .frame 1 (.joinRoom ⟨⟨Uuid.nil.text, by decide⟩, none, by decide⟩),
    .runQuery 1 .answered, .resume 1, .resume 1, .runQuery 1 .answered, .resume 1,
    .socketClose 0, .socketClose 1], ?_⟩
  refine exists_run_of_any (fun n : Node ↦ n.AtRest ∧ n.Vacant Uuid.nil.text ∧
    n.pg.roomSubscriptionCounts.get Uuid.nil.text = some 1 ∧
    n.pg.ListensOn (getRoomNotifyChannel Uuid.nil.text)) (by decide) ?_
  exact fun n _ hleak ↦ ⟨by decide, hleak⟩

end Node

end PostgresChat
