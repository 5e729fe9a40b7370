import PostgresChat.Node.Tasks
import PostgresChat.Postgres.Outstanding

/-!
# A join that throws

`handleFrame` puts the socket into the room's set, and `handleJoinRoom` counts a subscription,
before the `await`s at which a join can throw, and only the LISTEN has a `catch`. So a join that
throws leaves nothing behind exactly when the socket was in the set already and the throw comes
before the LISTEN has been executed (`noTrace_iff`).
-/

namespace PostgresChat

open Execution

/-- The `await`s of `handleJoinRoom` up to the LISTEN. -/
def Stage.beforeListen : Stage → Bool
  | .joinMember .. | .joinSubscribe .. => true
  | _ => false

/-- The call whose LISTEN a join awaits. -/
def TaskState.listenCall : TaskState → Option ℕ
  | .awaiting (.joinSubscribe ..) (.call id) => some id
  | _ => none

namespace Node

variable {n m m' : Node} {R : RoomId} {k : ℕ}

/-- The two maps have the same entries in the same order. -/
def NoTrace (n n' : Node) : Prop :=
  n'.roomSockets.toList = n.roomSockets.toList ∧
    n'.pg.roomSubscriptionCounts.toList = n.pg.roomSubscriptionCounts.toList

/-- What may happen while handler `k` is under way: no frame arrives, no socket is cleaned up, and
no other handler or call changes a count. -/
def Meanwhile (k : ℕ) (m : Node) (e : Event) : Prop :=
  match e with
  | .frame .. => False
  | .resume k' => k' = k ∨ m.subscribes (.resume k') = none ∧ m.unsubscribes (.resume k') = none
  | .pg (.resumeCall id) => m.pg.RollsBack (.resumeCall id) →
    m.tasks[k]?.bind (·.state.listenCall) = some id
  | e => m.cleansUp e = none

/-! ## What the other steps leave alone -/

/-- Another handler continues without a call of the LISTEN connection. -/
theorem pg_of_resumed {task : Task} {stage : Stage} {settled : Settled}
    (h : Resumed m m' k task stage settled) (hsubscribes : m.subscribes (.resume k) = none)
    (hunsubscribes : m.unsubscribes (.resume k) = none) : m'.pg = m.pg := by
  rw [subscribes, upcoming_of_resumed h, Option.bind_some] at hsubscribes
  rw [unsubscribes, upcoming_of_resumed h, Option.bind_some] at hunsubscribes
  rw [h.turned.pg, (observeCheck_frame m k stage settled).2.2.1]
  rcases resume_cases stage settled with ⟨R, lastSeenSeq, -, hnext⟩ | ⟨R, -, hnext⟩ | ⟨hord, -⟩
  · rw [hnext] at hsubscribes
    cases hsubscribes
  · rw [hnext] at hunsubscribes
    cases hunsubscribes
  · exact hord.pg _ _

/-- The events in which the connection passes notifications on. -/
def PassesOn (d : PgEvent) : Prop := (∃ note, d = .notify note) ∨ ∃ c, d = .deliver c

/-- While handler `k` waits, the rooms are the same, and the LISTEN connection takes a step of its
own or passes notifications on. -/
theorem meanwhile_cases {e : Event} (he : m.Meanwhile k e) (hk : e ≠ .resume k)
    (hstep : m.step e = some m') :
    m'.roomSockets = m.roomSockets ∧
      ((∃ d, e = .pg d ∧ d.internal = true ∧ m.pg.step d = some m'.pg) ∨
        ∃ ds, run PostgresService.step m.pg ds = some m'.pg ∧ ∀ d ∈ ds, PassesOn d) := by
  have hsame : m'.pg = m.pg →
      ∃ ds, run PostgresService.step m.pg ds = some m'.pg ∧ ∀ d ∈ ds, PassesOn d :=
    fun hpg ↦ ⟨[], by rw [hpg]; rfl, by rintro _ ⟨⟩⟩
  cases stepped_of_step hstep with
  | connected => exact ⟨rfl, Or.inr (hsame rfl)⟩
  | received => exact he.elim
  | resumed k' task stage settled _ hresumed =>
    obtain ⟨hsubscribes, hunsubscribes⟩ := he.resolve_left fun heq ↦ hk (by rw [heq])
    obtain ⟨-, hrooms, -⟩ := observeCheck_frame m k' stage settled
    exact ⟨hresumed.turned.rooms.trans hrooms,
      Or.inr (hsame (pg_of_resumed hresumed hsubscribes hunsubscribes))⟩
  | marked _ s _ _ hmarked => exact ⟨hmarked.quiet.rooms, Or.inr (hsame hmarked.pg)⟩
  | cleaned e s _ hcleans hcleansUp =>
    cases e with
    | heartbeat _ | socketError _ | socketClose _ =>
      have hnone : m.cleansUp _ = none := he
      cases hnone.symm.trans hcleansUp
    | _ => cases hcleans
  | quiet e _ hq hquiet => exact ⟨hquiet.rooms, pg_cases_of_quiet_step hq hstep⟩

/-! ## How far the join has come -/

/-- The counts, when the call of the subscription has this status. -/
def CountedAt (n : Node) (R : RoomId) (pg : PostgresService) (status : CallStatus) : Prop :=
  if status = .returned false then n.pg.roomCount R = 0 ∧
    pg.roomSubscriptionCounts = (n.pg.roomSubscriptionCounts.set R 1).delete R
  else (n.pg.roomCount R = 0 ∨ status = .returned true) ∧
    pg.roomSubscriptionCounts = n.pg.roomSubscriptionCounts.set R (n.pg.roomCount R + 1)

/-- The counts, when the join has come to this state. -/
inductive JoinedAt (n : Node) (R : RoomId) (pg : PostgresService) : TaskState → Prop
  | member (lastSeenSeq : Option JsNumber) (promise : Promise)
      (counts : pg.roomSubscriptionCounts = n.pg.roomSubscriptionCounts) :
    JoinedAt n R pg (.awaiting (.joinMember R lastSeenSeq) promise)
  | subscribe (lastSeenSeq : Option JsNumber) (id : ℕ) (call : Call)
      (get : pg.calls[id]? = some call) (kind : call.kind = .subscribe R)
      (counts : n.CountedAt R pg call.status) :
    JoinedAt n R pg (.awaiting (.joinSubscribe R lastSeenSeq) (.call id))
  | listening (stage : Stage) (promise : Promise) (stage_cases :
        (∃ lastSeenSeq, stage = .joinHistory R lastSeenSeq) ∨ stage = .joinPresence R)
      (counts : pg.roomSubscriptionCounts =
        n.pg.roomSubscriptionCounts.set R (n.pg.roomCount R + 1)) :
    JoinedAt n R pg (.awaiting stage promise)
  | ended : JoinedAt n R pg .ended

theorem CountedAt.zero {pg : PostgresService} {status : CallStatus} (h : n.CountedAt R pg status)
    (hfalse : status ≠ .returned false) (htrue : status ≠ .returned true) :
    n.pg.roomCount R = 0 := by
  rw [CountedAt, if_neg hfalse] at h
  exact h.1.resolve_right htrue

theorem CountedAt.counts {pg : PostgresService} {status : CallStatus} (h : n.CountedAt R pg status)
    (hfalse : status ≠ .returned false) :
    pg.roomSubscriptionCounts = n.pg.roomSubscriptionCounts.set R (n.pg.roomCount R + 1) := by
  rw [CountedAt, if_neg hfalse] at h
  exact h.2

/-- The call comes further, and its rollback does not run. -/
theorem CountedAt.moves {pg pg' : PostgresService} {status status' : CallStatus} {d : PgEvent}
    {id : ℕ} (h : n.CountedAt R pg status)
    (hmoves : PostgresService.StatusMoves d id status status')
    (hcounts : pg'.roomSubscriptionCounts = pg.roomSubscriptionCounts)
    (hok : status = .settled false → d ≠ .resumeCall id) : n.CountedAt R pg' status' := by
  cases hmoves with
  | stays _ =>
    rw [CountedAt, hcounts]
    exact h
  | settles c ok _ =>
    rw [CountedAt, if_neg (by rintro ⟨⟩), hcounts]
    exact ⟨Or.inl (h.zero (by rintro ⟨⟩) (by rintro ⟨⟩)), h.counts (by rintro ⟨⟩)⟩
  | returns ok event =>
    cases ok with
    | false => exact absurd event (hok rfl)
    | true =>
      rw [CountedAt, if_neg (by rintro ⟨⟩), hcounts]
      exact ⟨Or.inr rfl, h.counts (by rintro ⟨⟩)⟩

/-- The connection takes a step of its own; the call comes further, and is rolled back when its
command has failed. -/
theorem JoinedAt.pgStep {pg pg' : PostgresService} {state : TaskState} {d : PgEvent}
    (h : n.JoinedAt R pg state) (hout : pg.Outstanding)
    (hcall : ∀ R, d ≠ .subscribe R ∧ d ≠ .unsubscribe R)
    (hrolls : pg.RollsBack d → ∃ id, d = .resumeCall id ∧ state.listenCall = some id)
    (hstep : pg.step d = some pg') : n.JoinedAt R pg' state := by
  by_cases hroll : pg.RollsBack d
  · obtain ⟨id, rfl, hlisten⟩ := hrolls hroll
    cases h with
    | member | ended => cases hlisten
    | listening stage promise stage_cases => rcases stage_cases with ⟨_, rfl⟩ | rfl <;>
        cases hlisten
    | subscribe lastSeenSeq id' call get kind counts =>
      obtain rfl : id' = id := Option.some.inj hlisten
      obtain ⟨call', get', hstatus⟩ := Option.map_eq_some_iff.mp hroll
      obtain rfl := Option.some.inj (get.symm.trans get')
      obtain ⟨status, hget, hmoves⟩ := PostgresService.call_of_step hout get hstep
      refine .subscribe lastSeenSeq id' _ hget kind ?_
      rw [hstatus] at counts hmoves
      cases hmoves with
      | stays _ event => exact absurd rfl event
      | returns ok event =>
        have hzero := counts.zero (by rintro ⟨⟩) (by rintro ⟨⟩)
        have hcounts := counts.counts (by rintro ⟨⟩)
        rw [hzero] at hcounts
        rw [CountedAt, if_pos rfl, PostgresService.counts_of_rollback get hstatus hstep, kind]
        exact ⟨hzero, congrArg (EsMap.delete · R) hcounts⟩
  · have hcounts := (PostgresService.counts_of_step hcall hroll hstep).1
    cases h with
    | member lastSeenSeq promise counts =>
      exact .member lastSeenSeq promise (hcounts.trans counts)
    | listening stage promise stage_cases counts =>
      exact .listening stage promise stage_cases (hcounts.trans counts)
    | ended => exact .ended
    | subscribe lastSeenSeq id call get kind counts =>
      obtain ⟨status, hget, hmoves⟩ := PostgresService.call_of_step hout get hstep
      refine .subscribe lastSeenSeq id _ hget kind (counts.moves hmoves hcounts ?_)
      rintro hstatus rfl
      exact hroll (by rw [PostgresService.RollsBack, get, Option.map_some, hstatus])

/-- How the join has come to where it is: nothing else has changed the rooms or the counts. -/
structure Joining (n : Node) (R : RoomId) (s : SocketId) (k : ℕ) (m : Node) : Prop where
  rooms : m.roomSockets = n.roomSockets.set R ((n.socketsOf R).add s)
  outstanding : m.pg.Outstanding
  task : ∃ task, m.tasks[k]? = some task ∧ n.JoinedAt R m.pg task.state

/-- The first `await`. -/
theorem joining_of_frame {s : SocketId} {payload : JoinRoomPayload} (hout : n.pg.Outstanding)
    (hstep : n.step (.frame s (.joinRoom payload)) = some m) :
    n.Joining payload.roomId s n.tasks.length m := by
  obtain ⟨socket, -, -, hreceived⟩ := received_of_step hstep
  have hfirst : firstState socket.userId (.joinRoom payload) =
      .awaiting (.joinMember payload.roomId payload.lastSeenSeq) .query := by
    simp only [firstState, handleFrame, socket.userId_ne_nil, if_false, handleJoinRoom]
  refine ⟨hreceived.rooms, ?_, _, by rw [hreceived.tasks, List.getElem?_concat_length], ?_⟩
  · rw [hreceived.pg]
    exact hout
  · rw [hfirst, hreceived.pg]
    exact .member _ _ rfl

/-- The subscription is counted; it returns at once when the room was counted before. -/
theorem joinedAt_subscribe {pg : PostgresService}
    (hcounts : pg.roomSubscriptionCounts = n.pg.roomSubscriptionCounts)
    (lastSeenSeq : Option JsNumber) : n.JoinedAt R (pg.subscribeToRoomChannel R)
      (.awaiting (.joinSubscribe R lastSeenSeq) (.call pg.calls.length)) := by
  have hcount : pg.roomCount R = n.pg.roomCount R :=
    PostgresService.roomCount_of_counts_eq hcounts R
  rw [PostgresService.subscribeToRoomChannel]
  split
  · rename_i hzero
    refine .subscribe lastSeenSeq _ ⟨.subscribe R, .waiting⟩ List.getElem?_concat_length rfl ?_
    rw [CountedAt, if_neg (by rintro ⟨⟩)]
    refine ⟨Or.inl (hcount ▸ hzero), ?_⟩
    change pg.roomSubscriptionCounts.set R (pg.roomCount R + 1) = _
    rw [hcounts, hcount]
  · refine .subscribe lastSeenSeq _ ⟨.subscribe R, .returned true⟩
      List.getElem?_concat_length rfl ?_
    rw [CountedAt, if_neg (by rintro ⟨⟩)]
    refine ⟨Or.inr rfl, ?_⟩
    change pg.roomSubscriptionCounts.set R (pg.roomCount R + 1) = _
    rw [hcounts, hcount]

/-- Where the join goes on to after a promise that was fulfilled, or throws. -/
theorem JoinedAt.resume {stage : Stage} {promise : Promise} {settled : Settled}
    (h : n.JoinedAt R m.pg (.awaiting stage promise))
    (hsettled : m.settledOf promise = some settled)
    (userId : UserId) :
    n.JoinedAt R (afterTurn m.pg userId (stage.resume settled).next).1
      (afterTurn m.pg userId (stage.resume settled).next).2 := by
  cases settled with
  | rejected => exact .ended
  | resolved result =>
    cases h with
    | member lastSeenSeq _ counts =>
      rw [Stage.resume, Stage.proceed]
      split
      · exact .ended
      · exact joinedAt_subscribe counts lastSeenSeq
    | subscribe lastSeenSeq id call get kind counts =>
      have hcounts : m.pg.roomSubscriptionCounts =
          n.pg.roomSubscriptionCounts.set R (n.pg.roomCount R + 1) := by
        refine counts.counts fun hfailed ↦ ?_
        rw [settledOf, get, Option.map_some, hfailed] at hsettled
        cases hsettled
      cases lastSeenSeq with
      | none => exact .listening _ _ (Or.inr rfl) hcounts
      | some lastSeenSeq =>
        exact .listening _ _ (Or.inl ⟨lastSeenSeq, rfl⟩) hcounts
    | listening _ _ stage_cases counts =>
      rcases stage_cases with ⟨lastSeenSeq, rfl⟩ | rfl
      · exact .listening _ _ (Or.inr rfl) counts
      · exact .ended

theorem outstanding_of_step (h : m.pg.Outstanding) {e : Event} (hstep : m.step e = some m') :
    m'.pg.Outstanding :=
  pg_of_step (P := PostgresService.Outstanding) (fun _ _ _ hpg ↦ h.step hpg)
    (fun _ _ _ _ h hpg ↦ h.step hpg) h hstep

/-- What the connection does by itself leaves the join where it is. -/
theorem JoinedAt.other {e : Event} {task : Task} (h : n.JoinedAt R m.pg task.state)
    (hget : m.tasks[k]? = some task) (hout : m.pg.Outstanding) (he : m.Meanwhile k e)
    (hpg : (∃ d, e = .pg d ∧ d.internal = true ∧ m.pg.step d = some m'.pg) ∨
      ∃ ds, run PostgresService.step m.pg ds = some m'.pg ∧ ∀ d ∈ ds, PassesOn d) :
    n.JoinedAt R m'.pg task.state := by
  rcases hpg with ⟨d, rfl, hinternal, hstep⟩ | ⟨ds, hrun, hds⟩
  · refine h.pgStep hout (fun R ↦ ?_) (fun hroll ↦ ?_) hstep
    · constructor <;> rintro rfl <;> cases hinternal
    · cases d with
      | resumeCall id =>
        have hlisten := he hroll
        rw [hget, Option.bind_some] at hlisten
        exact ⟨id, rfl, hlisten⟩
      | _ => exact hroll.elim
  · refine (guarded_invariant (fun pg ↦ pg.Outstanding ∧ n.JoinedAt R pg task.state) ?_ ⟨hout, h⟩
      (guarded_of_forall _ hds _) hrun).2
    rintro pg d pg' ⟨hout, hat⟩ hd hstep
    refine ⟨hout.step hstep, hat.pgStep hout (fun R ↦ ?_) (fun hroll ↦ ?_) hstep⟩
    · rcases hd with ⟨note, rfl⟩ | ⟨c, rfl⟩ <;> exact ⟨by rintro ⟨⟩, by rintro ⟨⟩⟩
    · rcases hd with ⟨note, rfl⟩ | ⟨c, rfl⟩ <;> exact hroll.elim

/-- A statement that comes further changes nothing about where the join is. -/
theorem JoinedAt.statement {stage : Stage} {promise : Promise} {pg : PostgresService}
    (h : n.JoinedAt R pg (.awaiting stage promise)) (hpromise : promise.ofStatement = true)
    (promise' : Promise) : n.JoinedAt R pg (.awaiting stage promise') := by
  cases h with
  | member lastSeenSeq _ counts => exact .member _ _ counts
  | listening _ _ stage_cases counts => exact .listening _ _ stage_cases counts
  | subscribe => cases hpromise

/-- Where the handler is after a step that is not its continuation. -/
theorem task_of_meanwhile {e : Event} {task : Task} (he : m.Meanwhile k e) (hk : e ≠ .resume k)
    (hget : m.tasks[k]? = some task) (hstep : m.step e = some m') :
    ∃ task', m'.tasks[k]? = some task' ∧ (task'.state = task.state ∨
      ∃ stage promise promise', task.state = .awaiting stage promise ∧ promise.ofStatement = true ∧
        task'.state = .awaiting stage promise') := by
  rcases handler_cases hstep with hidle | ⟨s, f, socket, rfl, -⟩ |
    ⟨k', task', stage, settled, rfl, hresumed⟩
  · rcases hidle.settles with htasks |
      ⟨k', task', stage, promise, promise', hget', hstate, hof, htasks⟩
    · exact ⟨task, by rw [htasks, hget], Or.inl rfl⟩
    · by_cases hk' : k' = k
      · subst hk'
        obtain rfl := Option.some.inj (hget.symm.trans hget')
        refine ⟨{ task with state := .awaiting stage promise' }, ?_,
          Or.inr ⟨stage, promise, promise', hstate, hof, rfl⟩⟩
        rw [htasks, List.getElem?_set_self (List.getElem?_eq_some_iff.mp hget).1]
      · exact ⟨task, by rw [htasks, List.getElem?_set_ne hk', hget], Or.inl rfl⟩
  · exact he.elim
  · have hne : k' ≠ k := fun heq ↦ hk (by rw [heq])
    refine ⟨task, ?_, Or.inl rfl⟩
    rw [hresumed.turned.tasks, List.getElem?_set_ne hne,
      (observeCheck_frame m k' stage settled).1.tasks, hget]

/-- **Step lemma.** -/
theorem Joining.step {s : SocketId} (h : n.Joining R s k m) {e : Event} (he : m.Meanwhile k e)
    (hstep : m.step e = some m') : n.Joining R s k m' := by
  obtain ⟨task, hget, hat⟩ := h.task
  have hout := outstanding_of_step h.outstanding hstep
  by_cases hk : e = .resume k
  · subst hk
    obtain ⟨task', stage, settled, hresumed⟩ := resumed_of_step hstep
    obtain ⟨promise, hstate, hsettled⟩ := hresumed.awaiting
    obtain rfl := Option.some.inj (hget.symm.trans hresumed.get)
    obtain ⟨hsame, hrooms, hpg, -⟩ := observeCheck_frame m k stage settled
    rw [hstate] at hat
    have hnext := hat.resume hsettled task.userId
    refine ⟨(hresumed.turned.rooms.trans hrooms).trans h.rooms, hout, ?_⟩
    refine ⟨{ task with state := (afterTurn m.pg task.userId (stage.resume settled).next).2 },
      ?_, ?_⟩
    · rw [hresumed.turned.tasks, hsame.tasks, hpg,
        List.getElem?_set_self (List.getElem?_eq_some_iff.mp hget).1]
    · rw [hresumed.turned.pg, hpg]
      exact hnext
  · obtain ⟨hrooms, hpg⟩ := meanwhile_cases he hk hstep
    have hat' := hat.other hget h.outstanding he hpg
    refine ⟨hrooms.trans h.rooms, hout, ?_⟩
    obtain ⟨task', hget', hstate⟩ := task_of_meanwhile he hk hget hstep
    refine ⟨task', hget', ?_⟩
    rcases hstate with hsame | ⟨stage, promise, promise', hold, hof, hnew⟩
    · rw [hsame]
      exact hat'
    · rw [hold] at hat'
      rw [hnew]
      exact hat'.statement hof promise'

/-! ## What a join that throws leaves behind -/

/-- The set of the room has been left as it was exactly when the socket was in it. -/
theorem rooms_eq_iff {s : SocketId} :
    (n.roomSockets.set R ((n.socketsOf R).add s)).toList = n.roomSockets.toList ↔
      s ∈ n.socketsOf R := by
  constructor
  · intro h
    have hget := EsMap.get_eq_of_toList_eq h R
    rw [EsMap.get_set_self] at hget
    rw [socketsOf_of_get_eq_some hget.symm]
    exact EsSet.mem_add.mpr (Or.inl rfl)
  · intro hs
    have hadd : (n.socketsOf R).add s = n.socketsOf R := dif_pos hs
    cases hget : n.roomSockets.get R with
    | none =>
      rw [socketsOf, hget] at hs
      exact absurd hs EsSet.not_mem_empty
    | some sockets =>
      rw [hadd, socketsOf_of_get_eq_some hget, EsMap.set_eq_self hget]

/-- A subscription that stays counted shows. -/
theorem counts_ne_of_counted {pg : PostgresService}
    (hcounts : pg.roomSubscriptionCounts =
      n.pg.roomSubscriptionCounts.set R (n.pg.roomCount R + 1)) :
    pg.roomSubscriptionCounts.toList ≠ n.pg.roomSubscriptionCounts.toList := by
  intro h
  have hget := EsMap.get_eq_of_toList_eq h R
  rw [hcounts, EsMap.get_set_self] at hget
  have hcount : n.pg.roomCount R = n.pg.roomCount R + 1 := by
    conv_lhs => rw [PostgresService.roomCount, ← hget, Option.getD_some]
  omega

/-- The counts, when the join throws, are what they were exactly when it has come to the LISTEN at
most. -/
theorem JoinedAt.counts_iff (hpositive : n.pg.Positive) {stage : Stage} {promise : Promise}
    {settled : Settled} (h : n.JoinedAt R m.pg (.awaiting stage promise))
    (hsettled : m.settledOf promise = some settled)
    (hthrows : (stage.resume settled).next = .threw) :
    m.pg.roomSubscriptionCounts.toList = n.pg.roomSubscriptionCounts.toList ↔
      stage.beforeListen = true := by
  cases h with
  | member lastSeenSeq _ counts => exact ⟨fun _ ↦ rfl, fun _ ↦ by rw [counts]⟩
  | subscribe lastSeenSeq id call get kind counts =>
    refine ⟨fun _ ↦ rfl, fun _ ↦ ?_⟩
    have hfailed : call.status = .returned false := by
      rw [settledOf, get, Option.map_some] at hsettled
      cases hstatus : call.status with
      | returned ok =>
        cases ok with
        | false => rfl
        | true =>
          rw [hstatus] at hsettled
          cases hsettled
          cases lastSeenSeq <;> cases hthrows
      | waiting | settled =>
        rw [hstatus] at hsettled
        cases hsettled
    rw [CountedAt, if_pos hfailed] at counts
    rw [counts.2, EsMap.toList_delete_set (hpositive.get_eq_none counts.1)]
  | listening _ _ stage_cases counts =>
    have hnot : stage.beforeListen = false := by
      rcases stage_cases with ⟨lastSeenSeq, rfl⟩ | rfl <;> rfl
    rw [hnot]
    exact ⟨fun heq ↦ absurd heq (counts_ne_of_counted counts), fun h ↦ by cases h⟩

theorem reachable_pg {nodeId : JsString} {es : List Event}
    (hreach : run step (start nodeId) es = some n) : n.pg.Outstanding ∧ n.pg.Positive := by
  refine run_invariant (fun n : Node ↦ n.pg.Outstanding ∧ n.pg.Positive) ?_
    ⟨PostgresService.outstanding_ready nodeId, PostgresService.positive_ready nodeId⟩ hreach
  rintro m e m' ⟨hout, hpositive⟩ hstep
  exact ⟨outstanding_of_step hout hstep, pg_of_step (P := PostgresService.Positive)
    (fun _ _ _ hpg ↦ hpositive.step hpg) (fun _ _ _ _ h hpg ↦ h.step hpg) hpositive hstep⟩

/-- **A join that throws** leaves no trace on the node exactly when its socket was in the room's set
before and it throws at the membership check or at the LISTEN. -/
theorem noTrace_iff {nodeId : JsString} {before es : List Event} {n₁ n' : Node} {s : SocketId}
    {payload : JoinRoomPayload} {stage : Stage} (hreach : run step (start nodeId) before = some n)
    (hframe : n.step (.frame s (.joinRoom payload)) = some n₁)
    (hmeanwhile : Guarded step (Meanwhile n.tasks.length) n₁ es) (hrun : run step n₁ es = some m)
    (hstage : m.tasks[n.tasks.length]?.bind Task.stage? = some stage)
    (hthrows : m.upcoming (.resume n.tasks.length) = some .threw)
    (hstep : m.step (.resume n.tasks.length) = some n') :
    NoTrace n n' ↔ s ∈ n.socketsOf payload.roomId ∧ stage.beforeListen = true := by
  obtain ⟨hout, hpositive⟩ := reachable_pg hreach
  have hjoining : n.Joining payload.roomId s n.tasks.length m :=
    guarded_invariant (Joining n payload.roomId s n.tasks.length)
      (fun h he hstep ↦ h.step he hstep) (joining_of_frame hout hframe) hmeanwhile hrun
  obtain ⟨task, stage', settled, hresumed⟩ := resumed_of_step hstep
  obtain ⟨promise, hstate, hsettled⟩ := hresumed.awaiting
  rw [hresumed.get, Option.bind_some, stage?_eq hstate] at hstage
  obtain rfl : stage' = stage := Option.some.inj hstage
  rw [upcoming_of_resumed hresumed] at hthrows
  have hthrows : (stage'.resume settled).next = .threw := Option.some.inj hthrows
  obtain ⟨-, hrooms, hpg, -⟩ := observeCheck_frame m n.tasks.length stage' settled
  obtain ⟨task', hget, hat⟩ := hjoining.task
  obtain rfl := Option.some.inj (hget.symm.trans hresumed.get)
  rw [hstate] at hat
  have hpg' : n'.pg = m.pg := by
    rw [hresumed.turned.pg, hpg, hthrows]
    rfl
  rw [NoTrace, hresumed.turned.rooms, hrooms, hjoining.rooms, rooms_eq_iff, hpg',
    hat.counts_iff hpositive hsettled hthrows]

def joinNil : Event := .frame 0 (.joinRoom ⟨⟨Uuid.nil.text, Uuid.nil.text_ne_nil⟩, none, by decide⟩)

/-- A member of a room connects. -/
def memberConnects : List Event :=
  [.db (.createUser [0x61] [0x61]), .db (.createRoom .nil),
    .db (.query (.insertMember Uuid.nil.text [0x61])), .connect [0x61]]

/-- And joins the room. -/
def memberJoins : List Event :=
  memberConnects ++ [joinNil, .runQuery 0 .answered, .resume 0, .pg (.execCommand 0 true),
    .pg (.resumeCall 0), .resume 0, .runQuery 0 .answered, .resume 0]

/-- A second `join_room` of the same socket throws at the membership check. -/
theorem noTrace_iff_second_join :
    ∃ n, run step (start []) memberJoins = some n ∧ ∃ n₁, n.step joinNil = some n₁ ∧
      ∃ m, run step n₁ [.runQuery 1 .refused] = some m ∧ ∃ n', m.step (.resume 1) = some n' ∧
        NoTrace n n' := by
  refine exists_run_of_any (fun n : Node ↦ (n.tasks.length = 1 ∧ 0 ∈ n.socketsOf Uuid.nil.text) ∧
    (n.step joinNil).any (fun n₁ ↦ (run step n₁ [.runQuery 1 .refused]).any fun m ↦
      decide ((m.tasks[1]?.bind Task.stage? = some (.joinMember Uuid.nil.text none) ∧
        m.upcoming (.resume 1) = some .threw) ∧ (m.step (.resume 1)).isSome = true)) = true)
    (by decide) ?_
  rintro n hreach ⟨⟨hlength, hmem⟩, hany⟩
  obtain ⟨n₁, hframe, hany⟩ := (Option.any_eq_true _ _).mp hany
  obtain ⟨m, hrun, hany⟩ := (Option.any_eq_true _ _).mp hany
  obtain ⟨⟨hstage, hthrows⟩, hsome⟩ := of_decide_eq_true hany
  obtain ⟨n', hstep⟩ := Option.isSome_iff_exists.mp hsome
  refine ⟨n₁, hframe, m, hrun, n', hstep, ?_⟩
  rw [← hlength] at hstage hthrows hstep
  refine (noTrace_iff hreach hframe ?_ hrun hstage hthrows hstep).mpr ⟨hmem, rfl⟩
  exact ⟨rfl, fun _ _ ↦ trivial⟩

/-- The membership check of a first `join_room` is refused: the socket stays in the room's set. -/
theorem trace_of_failed_join :
    ∃ n, run step (start []) memberConnects = some n ∧
      (run step n [joinNil, .runQuery 0 .refused]).bind (upcoming · (.resume 0)) = some .threw ∧
      ∃ n', run step n [joinNil, .runQuery 0 .refused, .resume 0] = some n' ∧ ¬ NoTrace n n' := by
  refine exists_run_of_any (fun n : Node ↦
    (run step n [joinNil, .runQuery 0 .refused]).bind (upcoming · (.resume 0)) = some .threw ∧
    (run step n [joinNil, .runQuery 0 .refused, .resume 0]).any (fun n' ↦
      decide (n'.roomSockets.toList.length ≠ n.roomSockets.toList.length)) = true) (by decide) ?_
  rintro n - ⟨hthrows, hany⟩
  obtain ⟨n', hrun, hlength⟩ := (Option.any_eq_true _ _).mp hany
  exact ⟨hthrows, n', hrun, fun hnone ↦ of_decide_eq_true hlength (congrArg List.length hnone.1)⟩

end Node

end PostgresChat
