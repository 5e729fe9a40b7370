import PostgresChat.Node.Joining

/-!
# No message is missed by a join

What a handler does later is decided by the `await` it stands at, and `Stands` carries a property of
that `await` through all steps, as long as the handler's own turns keep it. With it the log can be
read back: which room a handler joins, and whether it has sent its history.

`ListenedBefore` says that the answers of a join come after the LISTEN, and `NoGap` what follows for
the messages committed while a join is under way.
-/

namespace PostgresChat

open Execution PastTrace

theorem beforeHistory_resume {stage stage' : Stage} {settled : Settled}
    (hstage : stage.beforeHistory = false) (h : (stage.resume settled).next.stage? = some stage') :
    stage'.beforeHistory = false := by
  cases settled with
  | rejected => cases h
  | resolved result =>
    cases stage with
    | joinMember R lastSeenSeq => cases hstage
    | joinSubscribe R lastSeenSeq => cases hstage
    | joinHistory R lastSeenSeq => cases hstage
    | _ =>
      simp only [Stage.resume, Stage.proceed] at h
      try split at h
      all_goals cases h
      all_goals rfl

/-- A history is sent by the turn that ends the history query, and has the rows of the query. -/
theorem history_of_resume {stage : Stage} {settled : Settled} {send : Send}
    {messages : List MessageRow} {cursor : Cursor} (hsend : (stage.resume settled).send = some send)
    (hframe : send.frame = .history messages cursor) :
    ∃ R lastSeenSeq result, stage = .joinHistory R lastSeenSeq ∧ settled = .resolved result ∧
      messages = result.messageRows ∧ (stage.resume settled).next = .await (.joinPresence R) := by
  cases settled with
  | rejected => cases hsend
  | resolved result =>
    cases stage with
    | joinHistory R lastSeenSeq =>
      cases hsend
      cases hframe
      exact ⟨R, lastSeenSeq, result, rfl, rfl, rfl, rfl⟩
    | joinSubscribe R lastSeenSeq => cases lastSeenSeq <;> cases hsend
    | _ =>
      simp only [Stage.resume, Stage.proceed] at hsend
      try split at hsend
      all_goals cases hsend
      all_goals cases hframe

namespace Node

variable {n n' m : Node} {R : RoomId} {cl : Client}

/-! ## Where a handler stands -/

/-- The `await` that handler `k` stands at. -/
def stageAt (n : Node) (k : ℕ) : Option Stage := n.tasks[k]?.bind Task.stage?

theorem stageAt_eq (n : Node) (k : ℕ) :
    n.stageAt k = (n.tasks.map Task.key)[k]?.bind Prod.snd := by
  rw [stageAt, List.getElem?_map]
  cases n.tasks[k]? <;> rfl

/-- Handler `k` has ended, or stands at an `await` that satisfies `F`. -/
def Stands (n : Node) (k : ℕ) (F : Stage → Prop) : Prop :=
  k < n.tasks.length ∧ ∀ stage, n.stageAt k = some stage → F stage

theorem Stands.get {k : ℕ} {F : Stage → Prop} (h : n.Stands k F) {task : Task} {stage : Stage}
    {promise : Promise} (hget : n.tasks[k]? = some task)
    (hstate : task.state = .awaiting stage promise) : F stage :=
  h.2 stage (by rw [stageAt, hget, Option.bind_some, stage?_eq hstate])

theorem stageAt_received {s : SocketId} {userId : UserId} {frame : ClientFrame}
    (hreceived : Received n n' s userId frame) :
    (∀ k < n.tasks.length, n'.stageAt k = n.stageAt k) ∧
      n'.stageAt n.tasks.length = Task.stage? ⟨s, userId, firstState userId frame⟩ := by
  refine ⟨fun k hk ↦ ?_, ?_⟩
  · rw [stageAt, stageAt, hreceived.tasks, List.getElem?_append_left hk]
  · rw [stageAt, hreceived.tasks, List.getElem?_concat_length, Option.bind_some]

theorem stageAt_resumed {k : ℕ} {task : Task} {stage : Stage} {settled : Settled}
    (hresumed : Resumed n n' k task stage settled) :
    n'.tasks.length = n.tasks.length ∧ (∀ k', k' ≠ k → n'.tasks[k']? = n.tasks[k']?) ∧
      n'.stageAt k = (stage.resume settled).next.stage? := by
  obtain ⟨hsame, -⟩ := observeCheck_frame n k stage settled
  have hlt := (List.getElem?_eq_some_iff.mp hresumed.get).1
  have htasks := hresumed.turned.tasks
  rw [hsame.tasks] at htasks
  refine ⟨by rw [htasks, List.length_set], fun k' hk' ↦ ?_, ?_⟩
  · rw [htasks, List.getElem?_set_ne (Ne.symm hk')]
  · rw [stageAt, htasks, List.getElem?_set_self hlt, Option.bind_some, stage?_afterTurn]

/-- **Step lemma.** A property of the `await` of a handler lasts if its turns keep it. -/
theorem Stands.step {k : ℕ} {F : Stage → Prop} (h : n.Stands k F)
    (hF : ∀ {stage settled stage'}, F stage →
      (Stage.resume stage settled).next.stage? = some stage' → F stage')
    {e : Event} (hstep : n.step e = some n') : n'.Stands k F := by
  rcases handler_cases hstep with hidle | ⟨s, frame, socket, -, -, hreceived⟩ |
    ⟨k', task, stage, settled, -, hresumed⟩
  · have hkeys := hidle.settles.handlers
    refine ⟨?_, fun stage hstage ↦ h.2 stage ?_⟩
    · rw [← List.length_map Task.key, hkeys, List.length_map]
      exact h.1
    · rw [stageAt_eq, ← hkeys, ← stageAt_eq, hstage]
  · refine ⟨?_, fun stage hstage ↦ h.2 stage ?_⟩
    · rw [hreceived.tasks, List.length_append]
      exact Nat.lt_add_right _ h.1
    · rw [← (stageAt_received hreceived).1 k h.1, hstage]
  · obtain ⟨hlength, hother, hself⟩ := stageAt_resumed hresumed
    refine ⟨hlength ▸ h.1, fun stage' hstage ↦ ?_⟩
    by_cases hk : k = k'
    · subst hk
      obtain ⟨promise, hstate, -⟩ := hresumed.awaiting
      exact hF (h.get hresumed.get hstate) (hself.symm.trans hstage)
    · exact h.2 stage' (by rw [stageAt, ← hother k hk, ← stageAt, hstage])

/-! ## What the log says of handlers -/

/-- A handler whose frame was a `join_room` joins the room of the frame, and one that has sent a
history is past it. -/
structure JoinLog (n : Node) : Prop where
  joins : ∀ k s R, .joinReceived k s R ∈ n.log → n.Stands k (·.joinRoom = some R)
  histories : ∀ k s messages cursor, .replied k s (.history messages cursor) ∈ n.log →
    n.Stands k (·.beforeHistory = false)

theorem joinLog_start (nodeId : JsString) : JoinLog (start nodeId) := ⟨nofun, nofun⟩

theorem joinRoom_firstState {s : SocketId} {userId : UserId} (hu : userId ≠ [])
    (payload : JoinRoomPayload) :
    Task.stage? ⟨s, userId, firstState userId (.joinRoom payload)⟩ =
      some (.joinMember payload.roomId payload.lastSeenSeq) := by
  simp only [firstState, handleFrame, hu, if_false]
  rfl

/-- **Step lemma.** -/
theorem JoinLog.step (h : JoinLog n) {e : Event} (hstep : n.step e = some n') : JoinLog n' := by
  have hjoins : ∀ k s R, .joinReceived k s R ∈ n.log → n'.Stands k (·.joinRoom = some R) :=
    fun k s R hmem ↦ (h.joins k s R hmem).step joinRoom_resume hstep
  have hhistories : ∀ k s messages cursor, .replied k s (.history messages cursor) ∈ n.log →
      n'.Stands k (·.beforeHistory = false) :=
    fun k s messages cursor hmem ↦
      (h.histories k s messages cursor hmem).step beforeHistory_resume hstep
  rcases handler_cases hstep with hidle | ⟨s₀, frame, socket, -, -, hreceived⟩ |
    ⟨k₀, task, stage, settled, -, hresumed⟩
  · obtain ⟨os, hlog, hos⟩ := hidle.log
    refine ⟨fun k s R hmem ↦ ?_, fun k s messages cursor hmem ↦ ?_⟩ <;>
      rw [hlog, List.mem_append] at hmem
    · exact hmem.elim (hjoins k s R) fun hnew ↦ by cases hos _ hnew
    · exact hmem.elim (hhistories k s messages cursor) fun hnew ↦ by cases hos _ hnew
  · obtain ⟨os, hlog, hos⟩ := hreceived.log_cases
    refine ⟨fun k s R hmem ↦ ?_, fun k s messages cursor hmem ↦ ?_⟩ <;>
      rw [hlog, List.mem_append] at hmem
    · refine hmem.elim (hjoins k s R) fun hnew ↦ ?_
      rcases hos _ hnew with ⟨payload, rfl, heq⟩ | ⟨payload, -, heq⟩ | ⟨error, -, heq⟩ <;> cases heq
      refine ⟨by rw [hreceived.tasks, List.length_append]; exact Nat.lt_add_one _, ?_⟩
      intro stage hstage
      rw [(stageAt_received hreceived).2, joinRoom_firstState socket.userId_ne_nil] at hstage
      cases hstage
      rfl
    · refine hmem.elim (hhistories k s messages cursor) fun hnew ↦ ?_
      rcases hos _ hnew with ⟨payload, -, heq⟩ | ⟨payload, -, heq⟩ |
        ⟨_, ⟨message, code, rfl⟩, heq⟩ <;>
        cases heq
  · obtain ⟨os, hlog, hos⟩ := hresumed.log
    refine ⟨fun k s R hmem ↦ ?_, fun k s messages cursor hmem ↦ ?_⟩ <;>
      rw [hlog, List.mem_append] at hmem
    · rcases hmem with hmem | hmem
      · exact hjoins k s R hmem
      · rcases hos _ hmem with heq | ⟨send, -, heq⟩ <;> cases heq
    · rcases hmem with hmem | hmem
      · exact hhistories k s messages cursor hmem
      · rcases hos _ hmem with heq | ⟨send, hsend, heq⟩
        · cases heq
        · injection heq with hk hs hframe
          subst hk
          obtain ⟨hlength, -, hself⟩ := stageAt_resumed hresumed
          obtain ⟨R, -, -, -, -, -, hnext⟩ := history_of_resume hsend hframe.symm
          refine ⟨hlength ▸ (List.getElem?_eq_some_iff.mp hresumed.get).1, fun stage' hstage ↦ ?_⟩
          rw [hself, hnext] at hstage
          cases hstage
          rfl

/-! ## The answers of a join -/

/-- Before a join answers, the LISTEN for the channel that messages of its room are notified on has
been executed, on the one client there is while nothing fails. -/
def ListenedBefore (pre : List Observation) (o : Observation) : Prop :=
  ∀ k s frame, o = .replied k s frame → frame.answersJoin = true →
    ∀ s' R r, .joinReceived k s' R ∈ pre → Uuid.parse R = some r →
      .executed 0 .listen (getRoomNotifyChannel r.text) ∈ pre

/-- A join that has subscribed finds the channel of its room listened on. -/
theorem JoinInv.listening (h : JoinInv n cl) {task : Task} {stage : Stage} {promise : Promise}
    (htask : task ∈ n.tasks) (hstate : task.state = .awaiting stage promise)
    (hR : stage.subscribed = some R) {r : Uuid} (hr : Uuid.parse R = some r) :
    getRoomNotifyChannel r.text ∈ cl.listening := by
  have hkey := List.mem_map_of_mem (f := Task.key) htask
  have hcanonical := h.canonical task.key hkey R
    (by rw [key_eq hstate]; exact (Stage.joining_of_subscribed hR).1)
  rw [hcanonical.text_eq hr]
  exact h.subscribed task.key hkey R (by rw [key_eq hstate]; exact hR)

/-- **Step lemma.** -/
theorem listenedBefore_step (h : JoinInv n cl) (hjoins : JoinLog n)
    (hlistened : Each ListenedBefore n.log) {e : Event} (hstep : n.step e = some n') :
    Each ListenedBefore n'.log := by
  rcases handler_cases hstep with hidle | ⟨s₀, frame₀, socket, -, -, hreceived⟩ |
    ⟨k₀, task, stage, settled, -, hresumed⟩
  · obtain ⟨os, hlog, hos⟩ := hidle.log
    rw [hlog]
    refine each_append hlistened fun pre o post hpost k s frame heq ↦ ?_
    have := hos o (hpost ▸ List.mem_append_right _ List.mem_cons_self)
    rw [heq] at this
    cases this
  · obtain ⟨os, hlog, hos⟩ := hreceived.log_cases
    rw [hlog]
    refine each_append hlistened fun pre o post hpost k s frame heq hanswers ↦ ?_
    rcases hos o (hpost ▸ List.mem_append_right _ List.mem_cons_self) with
      ⟨payload, -, heq'⟩ | ⟨payload, -, heq'⟩ | ⟨_, ⟨message, code, rfl⟩, heq'⟩ <;>
      cases heq'.symm.trans heq
    cases hanswers
  · obtain ⟨os, hlog, hos⟩ := hresumed.log
    obtain ⟨promise, hstate, -⟩ := hresumed.awaiting
    rw [hlog]
    refine each_append hlistened
      fun pre o post hpost k s frame heq hanswers s' R r hreceived hr ↦ ?_
    rcases hos o (hpost ▸ List.mem_append_right _ List.mem_cons_self) with heq' |
      ⟨send, hsend, heq'⟩
    · cases heq'.symm.trans heq
    · obtain ⟨rfl, rfl, rfl⟩ : k = k₀ ∧ s = task.socket ∧ frame = send.frame := by
        simpa using heq.symm.trans heq'
      obtain ⟨R', hR'⟩ := subscribed_of_answersJoin hsend hanswers
      have hmem : .joinReceived k s' R ∈ n.log := by
        refine (List.mem_append.mp hreceived).resolve_right fun hpre ↦ ?_
        rcases hos _ (hpost ▸ List.mem_append_left _ hpre) with heq | ⟨send', -, heq⟩ <;> cases heq
      have hjoin := (hjoins.joins k s' R hmem).get hresumed.get hstate
      obtain rfl : R' = R :=
        Option.some.inj ((Stage.joining_of_subscribed hR').2.symm.trans hjoin)
      have hlistening := h.listening (List.mem_of_getElem? hresumed.get) hstate hR' hr
      exact List.mem_append_left _ (h.executed r.text hlistening)

/-! ## Messages committed during a join -/

/-- Between the state `m`, in which the history query of handler `k` runs, and `n`: the history that
the handler sends is what the query finds in `m`, and each message of the room that the client has
not seen is in it or was notified after the query. -/
def NoGap (k : ℕ) (r : Uuid) (lastSeen : ℤ) (m n : Node) : Prop :=
  (∀ s messages cursor, .replied k s (.history messages cursor) ∈ n.log →
    messages = m.db.history r lastSeen) ∧
  ∃ os, n.log = m.log ++ os ∧ ∀ row ∈ n.db.messagesOf r, lastSeen < row.seq →
    row ∈ m.db.history r lastSeen ∨ .notified 0 (.message row) ∈ os

/-- `NoGap`, with what it takes to go on: the handler has the rows of its query, or is past sending
them. -/
structure Followed (k : ℕ) (r : Uuid) (lastSeen : ℤ) (m n : Node) : Prop where
  noGap : NoGap k r lastSeen m n
  handler : (∃ task R lastSeenSeq, n.tasks[k]? = some task ∧
      task.state = .awaiting (.joinHistory R lastSeenSeq)
        (.settled (.resolved (.messages (m.db.history r lastSeen))))) ∨
    n.Stands k (·.beforeHistory = false)

/-- The history query of handler `k` has run. -/
theorem followed_of_runQuery {k : ℕ} {task : Task} {lastSeenSeq : JsNumber} {r : Uuid}
    {lastSeen : ℤ}
    (hjoins : JoinLog m) (hget : m.tasks[k]? = some task)
    (hstate : task.state = .awaiting (.joinHistory R lastSeenSeq) .query)
    (hr : Uuid.parse R = some r) (hlast : bigintParam lastSeenSeq = some lastSeen)
    (hbacklog : (m.db.backlog r lastSeen).length ≤ 100)
    (hstep : m.step (.runQuery k .answered) = some n) : Followed k r lastSeen m n := by
  have hexec : m.db.exec (.selectHistory R lastSeenSeq) =
      some (m.db, .messages (m.db.history r lastSeen), []) := by
    simp only [Db.exec, hr, hlast, Option.bind_eq_bind, Option.bind_some, Option.pure_def]
  simp only [Node.step, hget, Option.bind_eq_bind, Option.bind_some, hstate, Stage.request,
    Option.pure_def, Option.some.injEq, runQuery, hexec] at hstep
  subst hstep
  have hlt := (List.getElem?_eq_some_iff.mp hget).1
  refine ⟨⟨fun s messages cursor hmem ↦ ?_, [], (List.append_nil _).symm, fun row hrow hseq ↦ ?_⟩,
    Or.inl ⟨_, R, lastSeenSeq, List.getElem?_set_self hlt, rfl⟩⟩
  · cases (hjoins.histories k s messages cursor hmem).get hget hstate
  · exact Or.inl (Db.mem_history hbacklog hrow hseq)

theorem Followed.handler_step {k : ℕ} {r : Uuid} {lastSeen : ℤ} (h : Followed k r lastSeen m n)
    {e : Event} (hstep : n.step e = some n') :
    (∃ task R lastSeenSeq, n'.tasks[k]? = some task ∧
      task.state = .awaiting (.joinHistory R lastSeenSeq)
        (.settled (.resolved (.messages (m.db.history r lastSeen))))) ∨
    n'.Stands k (·.beforeHistory = false) := by
  rcases h.handler with ⟨task, R, lastSeenSeq, hget, hstate⟩ | hstands
  · rcases handler_cases hstep with hidle | ⟨s, frame, socket, -, -, hreceived⟩ |
      ⟨k₀, task₀, stage, settled, -, hresumed⟩
    · refine Or.inl ⟨task, R, lastSeenSeq, ?_, hstate⟩
      rcases hidle.settles with htasks | ⟨k₀, task₀, _, _, _, hget₀, hstate₀, hpromise, htasks⟩
      · rw [htasks, hget]
      · by_cases hk : k₀ = k
        · subst hk
          obtain rfl : task = task₀ := Option.some.inj (hget.symm.trans hget₀)
          cases hstate.symm.trans hstate₀
          cases hpromise
        · rw [htasks, List.getElem?_set_ne hk, hget]
    · refine Or.inl ⟨task, R, lastSeenSeq, ?_, hstate⟩
      rw [hreceived.tasks, List.getElem?_append_left (List.getElem?_eq_some_iff.mp hget).1, hget]
    · obtain ⟨hlength, hother, hself⟩ := stageAt_resumed hresumed
      by_cases hk : k = k₀
      · subst hk
        obtain rfl : task = task₀ := Option.some.inj (hget.symm.trans hresumed.get)
        obtain ⟨promise, hstate', hsettled⟩ := hresumed.awaiting
        cases hstate.symm.trans hstate'
        cases hsettled
        refine Or.inr ⟨hlength ▸ (List.getElem?_eq_some_iff.mp hget).1, fun stage' hstage ↦ ?_⟩
        cases hself.symm.trans hstage
        rfl
      · exact Or.inl ⟨task, R, lastSeenSeq, (hother k hk).trans hget, hstate⟩
  · exact Or.inr (hstands.step beforeHistory_resume hstep)

/-- **Step lemma.** -/
theorem Followed.step {k : ℕ} {r : Uuid} {lastSeen : ℤ} (h : Followed k r lastSeen m n)
    (hlistens : n.pg.OnlyListens cl) (hlistening : getRoomNotifyChannel r.text ∈ cl.listening)
    {e : Event} (hstep : n.step e = some n') : Followed k r lastSeen m n' := by
  refine ⟨⟨fun s messages cursor hmem ↦ ?_, ?_⟩, h.handler_step hstep⟩
  · rcases handler_cases hstep with hidle | ⟨s₀, frame, socket, -, -, hreceived⟩ |
      ⟨k₀, task₀, stage, settled, -, hresumed⟩
    · obtain ⟨os, hlog, hos⟩ := hidle.log
      rw [hlog, List.mem_append] at hmem
      exact hmem.elim (h.noGap.1 s messages cursor) fun hnew ↦ by cases hos _ hnew
    · obtain ⟨os, hlog, hos⟩ := hreceived.log_cases
      rw [hlog, List.mem_append] at hmem
      refine hmem.elim (h.noGap.1 s messages cursor) fun hnew ↦ ?_
      rcases hos _ hnew with ⟨payload, -, heq⟩ | ⟨payload, -, heq⟩ |
        ⟨_, ⟨message, code, rfl⟩, heq⟩ <;>
        cases heq
    · obtain ⟨os, hlog, hos⟩ := hresumed.log
      rw [hlog, List.mem_append] at hmem
      refine hmem.elim (h.noGap.1 s messages cursor) fun hnew ↦ ?_
      rcases hos _ hnew with heq | ⟨send, hsend, heq⟩
      · cases heq
      · injection heq with hk hs hframe
        subst hk
        obtain ⟨R, lastSeenSeq, result, rfl, rfl, rfl, -⟩ := history_of_resume hsend hframe.symm
        obtain ⟨promise, hstate, hsettled⟩ := hresumed.awaiting
        rcases h.handler with ⟨task, R', lastSeenSeq', hget, hstate'⟩ | hstands
        · obtain rfl : task = task₀ := Option.some.inj (hget.symm.trans hresumed.get)
          cases hstate'.symm.trans hstate
          cases hsettled
          rfl
        · cases hstands.get hresumed.get hstate
  · obtain ⟨os, hlog, hnotified⟩ := h.noGap.2
    obtain ⟨rows, os', hmessages, hlog', hrows⟩ := committed_of_step hstep
    refine ⟨os ++ os', by rw [hlog', hlog, List.append_assoc], fun row hrow hseq ↦ ?_⟩
    rw [Db.messagesOf, hmessages, List.filter_append, List.mem_append] at hrow
    rcases hrow with hrow | hrow
    · exact (hnotified row hrow hseq).imp_right fun hold ↦ List.mem_append_left _ hold
    · obtain ⟨hnew, hroom⟩ := List.mem_filter.mp hrow
      rw [← of_decide_eq_true hroom] at hlistening
      refine Or.inr (List.mem_append_right _ (hrows row hnew 0 cl ?_ hlistening))
      rw [hlistens.clients]
      rfl

/-! ## Runs -/

/-- In every run without leaves, closes, failures and reconnects in which each join that finds its
room counted finds its channel listened on: no join answers before the LISTEN for its room has been
executed, and a join whose backlog fits into one history misses no message, from the history query
on. -/
theorem join_leaves_no_gap {nodeId : JsString} {es : List Event}
    (hrun : run step (start nodeId) es = some n) (hstays : Guarded step Stays (start nodeId) es)
    (hfirst : Guarded step ListensFirst (start nodeId) es) :
    Each ListenedBefore n.log ∧
      ∀ es₁ k es₂ m task R lastSeenSeq r lastSeen, es = es₁ ++ .runQuery k .answered :: es₂ →
        run step (start nodeId) es₁ = some m → m.tasks[k]? = some task →
        task.state = .awaiting (.joinHistory R lastSeenSeq) .query → Uuid.parse R = some r →
        bigintParam lastSeenSeq = some lastSeen → (m.db.backlog r lastSeen).length ≤ 100 →
        NoGap k r lastSeen m n := by
  have hinv : ∀ {es : List Event} {n : Node}, run step (start nodeId) es = some n →
      Guarded step (fun n e ↦ Stays n e ∧ ListensFirst n e) (start nodeId) es →
      (∃ cl, JoinInv n cl) ∧ JoinLog n ∧ Each ListenedBefore n.log := fun hrun hguard ↦
    guarded_invariant (fun n ↦ (∃ cl, JoinInv n cl) ∧ JoinLog n ∧ Each ListenedBefore n.log)
      (fun ⟨⟨cl, hcl⟩, hlog, hlistened⟩ he hstep ↦
        ⟨(hcl.step he.1 he.2 hstep).imp fun _ h ↦ h.1, hlog.step hstep,
          listenedBefore_step hcl hlog hlistened hstep⟩)
      ⟨⟨_, joinInv_start nodeId⟩, joinLog_start nodeId, each_nil⟩ hguard hrun
  refine ⟨(hinv hrun (hstays.and hfirst)).2.2, ?_⟩
  rintro es₁ k es₂ m task R lastSeenSeq r lastSeen rfl hm hget hstate hr hlast hbacklog
  obtain ⟨m₁, hm₁, hrun⟩ := run_append_eq_some.mp hrun
  obtain rfl : m = m₁ := Option.some.inj (hm.symm.trans hm₁)
  obtain ⟨m', hm', hrun⟩ := run_cons_eq_some.mp hrun
  obtain ⟨hguard, hrest⟩ := guarded_append.mp (hstays.and hfirst)
  obtain ⟨⟨cl, hcl⟩, hlog, -⟩ := hinv hm hguard
  obtain ⟨hguard', hrest⟩ := hrest m hm
  obtain ⟨cl', hcl', hgrows⟩ := hcl.step hguard'.1 hguard'.2 hm'
  have hlistening := hcl.listening (List.mem_of_getElem? hget) hstate rfl hr
  refine (guarded_invariant (fun n ↦ Followed k r lastSeen m n ∧
    ∃ cl, JoinInv n cl ∧ getRoomNotifyChannel r.text ∈ cl.listening) ?_
    ⟨followed_of_runQuery hlog hget hstate hr hlast hbacklog hm', cl', hcl', hgrows hlistening⟩
    (hrest m' hm') hrun).1.noGap
  rintro n e n' ⟨hfollowed, cl, hcl, hlistening⟩ he hstep
  obtain ⟨cl', hcl', hgrows⟩ := hcl.step he.1 he.2 hstep
  exact ⟨hfollowed.step hcl.listens hlistening hstep, cl', hcl', hgrows hlistening⟩

/-- Two sockets of a member join, the second once the channel is listened on for the first. Messages
are inserted meanwhile, one before the history query of the second and one after it. -/
theorem join_leaves_no_gap_between_messages :
    ∃ n, run step (start []) ([.db (.createUser [0x61] [0x61]), .db (.createRoom .nil),
        .db (.query (.insertMember Uuid.nil.text [0x61])), .connect [0x61], .connect [0x61],
        .frame 0 (.joinRoom ⟨⟨Uuid.nil.text, by decide⟩, none, by decide⟩),
        .runQuery 0 .answered, .resume 0, .pg (.execCommand 0 true), .pg (.resumeCall 0), .resume 0,
        .frame 1 (.joinRoom ⟨⟨Uuid.nil.text, by decide⟩, some (.finite 0), by decide⟩),
        .runQuery 1 .answered, .resume 1, .resume 1,
        .db (.beginInsert .nil [0x61] [0x31]), .db (.assignSequence 0), .db (.setUsername 0),
        .db (.store 0), .db (.commit 0)] ++ .runQuery 1 .answered ::
        [.db (.beginInsert .nil [0x61] [0x32]), .db (.assignSequence 1), .db (.setUsername 1),
        .db (.store 1), .db (.commit 1), .resume 1]) = some n ∧
      Each ListenedBefore n.log ∧
      ∃ m, m.pg.roomCount Uuid.nil.text = 2 ∧
        m.db.history .nil 0 = [⟨1, 1, .nil, [0x61], [0x61], [0x31], 0⟩] ∧ NoGap 1 .nil 0 m n := by
  refine exists_run_of_any (fun _ : Node ↦ True) (by decide) fun n hrun _ ↦ ?_
  obtain ⟨m, hm, -⟩ := run_append_eq_some.mp hrun
  have hjoin := of_run_eq_some (fun m : Node ↦ m.pg.roomCount Uuid.nil.text = 2 ∧ m.tasks[1]? =
      some ⟨1, [0x61], .awaiting (.joinHistory Uuid.nil.text (.finite 0)) .query⟩ ∧
    m.db.history .nil 0 = [⟨1, 1, .nil, [0x61], [0x61], [0x31], 0⟩] ∧
    (m.db.backlog .nil 0).length ≤ 100) hm (by decide)
  obtain ⟨hcount, hget, hhistory, hbacklog⟩ := hjoin
  have h := join_leaves_no_gap hrun (by decide) (by decide)
  exact ⟨h.1, m, hcount, hhistory, h.2 _ 1 _ m _ _ _ .nil 0 rfl hm hget rfl (by decide) (by decide)
    hbacklog⟩

/-- A second socket joins while the LISTEN of the first is still waiting: it is answered before the
LISTEN is executed, and a message committed in between is neither in its history nor notified. -/
theorem second_join_misses_message :
    ∃ es n, run step (start []) es = some n ∧
      Guarded step (fun n e ↦ Stays n e ∧ n.NoRejection e) (start []) es ∧ n.AtRest ∧
      ¬ Each ListenedBefore n.log ∧
      .replied 1 1 (.history [] (.lastSeenSeq (.finite 0))) ∈ n.log ∧
      ∃ row ∈ n.db.messagesOf .nil, 0 < row.seq ∧ ∀ c, .notified c (.message row) ∉ n.log := by
  refine ⟨[.db (.createUser [0x61] [0x61]), .db (.createRoom .nil),
    .db (.query (.insertMember Uuid.nil.text [0x61])), .connect [0x61], .connect [0x61],
    .frame 0 (.joinRoom ⟨⟨Uuid.nil.text, by decide⟩, none, by decide⟩),
    .runQuery 0 .answered, .resume 0,
    .frame 1 (.joinRoom ⟨⟨Uuid.nil.text, by decide⟩, some (.finite 0), by decide⟩),
    .runQuery 1 .answered, .resume 1, .resume 1, .runQuery 1 .answered, .resume 1,
    .db (.beginInsert .nil [0x61] [0x31]), .db (.assignSequence 0), .db (.setUsername 0),
    .db (.store 0), .db (.commit 0), .pg (.execCommand 0 true), .pg (.resumeCall 0), .resume 0,
    .runQuery 0 .answered, .resume 0, .runQuery 1 .answered, .resume 1], ?_⟩
  refine exists_run_of_any (fun n : Node ↦ n.AtRest ∧
    n.db.messagesOf .nil = [⟨1, 1, .nil, [0x61], [0x61], [0x31], 0⟩] ∧
    n.log = [.joinReceived 0 0 Uuid.nil.text, .checkPassed 0, .joinReceived 1 1 Uuid.nil.text,
      .checkPassed 1, .replied 1 1 (.history [] (.lastSeenSeq (.finite 0))),
      .executed 0 .listen (getRoomNotifyChannel Uuid.nil.text),
      .notified 0 (.presence ⟨[0x61], .nil, [], 0⟩), .replied 0 0 (.joinedRoom Uuid.nil.text),
      .notified 0 (.presence ⟨[0x61], .nil, [], 0⟩), .replied 1 1 (.joinedRoom Uuid.nil.text)])
    (by decide) ?_
  rintro n - ⟨hrest, hmessages, hlog⟩
  rw [hlog, hmessages]
  refine ⟨by decide, hrest, fun h ↦ ?_, by simp, _, List.mem_singleton_self _, by decide, by simp⟩
  have hlistened := h [.joinReceived 0 0 Uuid.nil.text, .checkPassed 0,
    .joinReceived 1 1 Uuid.nil.text, .checkPassed 1] _ _ rfl 1 1 _ rfl rfl 1 Uuid.nil.text .nil
    (by simp) (by decide)
  simp at hlistened

end Node

end PostgresChat
