import PostgresChat.Cluster.Agreement
import PostgresChat.Database.Steps
import PostgresChat.Node.Calm
import PostgresChat.Node.Sockets
import PostgresChat.Node.Standing

/-!
# Frames in order

The listener of a socket does not wait for the handler of one frame before it starts that of the
next, so the statements and calls of consecutive frames of one socket may come in any order. What
the frames are meant to do together is what their handlers do one after another.

As long as only one socket sends frames for a room, what it will have there is known at any time:
its standing, once all that is owed by its handlers has been done (`target`). A frame changes the
target as handling it alone would. A step of a handler leaves the target alone if it comes in turn;
`InTurn` asks for this where it can fail, when a statement runs, when a handler subscribes or
unsubscribes, and when a `leave_room` takes the last socket out of the room.
-/

namespace PostgresChat

open Execution

/-! ## The frames of one socket -/

/-- A socket of a user, and a room. -/
structure Seat where
  socket : SocketId
  userId : UserId
  roomId : RoomId
  room : Uuid
  userId_ne_nil : userId ≠ []
  parses : Uuid.parse roomId = some room

/-- The room of a frame that joins, leaves, starts or stops typing. -/
def ClientFrame.room? : ClientFrame → Option RoomId
  | .joinRoom payload => some payload.roomId
  | .leaveRoom payload | .typingStart payload | .typingStop payload => some payload.roomId
  | .null | .unknown | .invalid _ | .sendMessage _ => none

/-- The room of a handler of such a frame. -/
def Stage.room? : Stage → Option RoomId
  | .joinMember R _ | .joinSubscribe R _ | .joinHistory R _ | .joinPresence R | .leavePresence R
  | .leaveUnsubscribe R | .typingStartMember R | .typingStartUpsert R
  | .typingStopDelete R => some R
  | .sendMember .. | .sendInsert .. => none

/-- The stage awaits the answer to whether the user is a member. -/
def Stage.checks : Stage → Bool
  | .joinMember .. | .typingStartMember _ | .sendMember .. => true
  | _ => false

/-- The user's row of `presence` in a room. -/
def Db.presenceOf (db : Db) (r : Uuid) (u : UserId) : Option PresenceRow :=
  db.presence.find? fun p ↦ p.userId = u ∧ p.roomId = r

/-- The user's row of `typing` in a room. -/
def Db.typingOf (db : Db) (r : Uuid) (u : UserId) : Option TypingRow :=
  db.typing.find? fun p ↦ p.userId = u ∧ p.roomId = r

theorem Db.presenceOf_upsert (db : Db) (r : Uuid) (u : UserId) (nodeId : JsString) :
    Db.presenceOf { db with presence := db.otherPresence r u ++ [⟨u, r, nodeId, db.now⟩] } r u =
      some ⟨u, r, nodeId, db.now⟩ :=
  Lists.find?_filter_not_concat db.presence ⟨rfl, rfl⟩

theorem Db.presenceOf_delete (db : Db) (r : Uuid) (u : UserId) :
    Db.presenceOf { db with presence := db.otherPresence r u } r u = none :=
  Lists.find?_filter_not db.presence

theorem Db.typingOf_upsert (db : Db) (r : Uuid) (u : UserId) :
    Db.typingOf { db with typing := db.otherTyping r u ++ [⟨u, r, db.now⟩] } r u =
      some ⟨u, r, db.now⟩ :=
  Lists.find?_filter_not_concat db.typing ⟨rfl, rfl⟩

theorem Db.typingOf_delete (db : Db) (r : Uuid) (u : UserId) :
    Db.typingOf { db with typing := db.otherTyping r u } r u = none :=
  Lists.find?_filter_not db.typing

/-- The promise a handler awaits. -/
def TaskState.promise? : TaskState → Option Promise
  | .awaiting _ promise => some promise
  | .ended => none

/-- The frame that arrives. -/
def Event.frame? : Event → Option ClientFrame
  | .frame _ f => some f
  | _ => none

/-- No other frame arrives than such a one of this socket for this room, and nobody else has a
statement run. -/
def Event.OfSeat (p : Seat) : Event → Prop
  | .frame s f => s = p.socket ∧ f.room? = some p.roomId
  | .db (.query _) => False
  | _ => True

instance (p : Seat) (e : Event) : Decidable (e.OfSeat p) := by
  cases e with
  | db d => cases d <;> (dsimp only [Event.OfSeat]; infer_instance)
  | _ => dsimp only [Event.OfSeat]; infer_instance

namespace Node

/-- What a user has in a room. -/
def standing (n : Node) (p : Seat) : Standing where
  presence := (n.db.presenceOf p.room p.userId).map PresenceRow.nodeId
  typing := (n.db.typingOf p.room p.userId).isSome
  count := n.pg.roomCount p.roomId
  joined := p.socket ∈ n.socketsOf p.roomId

/-- What the handlers have still to do, in the order of their frames. -/
def owed (n : Node) : List (List RoomEffect) := n.tasks.map fun task ↦ task.state.owes

/-- What the handlers of the frames before that of handler `k` have still to do. -/
def owedBefore (n : Node) (k : ℕ) : List RoomEffect := (n.owed.take k).flatten

/-- All handlers have ended. -/
def AllEnded (n : Node) : Prop := ∀ task ∈ n.tasks, task.state = .ended

instance (n : Node) : Decidable n.AllEnded :=
  inferInstanceAs (Decidable (∀ task ∈ n.tasks, task.state = .ended))

/-- No handler awaits a promise that is rejected. -/
def NothingRejected (n : Node) : Prop :=
  ∀ task ∈ n.tasks, ∀ promise ∈ task.state.promise?, n.settledOf promise ≠ some .rejected

instance (n : Node) : Decidable n.NothingRejected :=
  inferInstanceAs (Decidable (∀ task ∈ n.tasks, ∀ promise ∈ task.state.promise?, _))

/-- The step is the rollback of a call whose command failed. -/
def RollsBack (n : Node) : Event → Prop
  | .pg d => n.pg.RollsBack d
  | _ => False

instance (n : Node) (e : Event) : Decidable (n.RollsBack e) := by
  cases e <;> (dsimp only [RollsBack]; infer_instance)

/-- The frames of one socket for one room are handled, no other sockets are active, and nothing
fails. -/
def Solo (p : Seat) (n : Node) (e : Event) : Prop :=
  e.OfSeat p ∧ n.cleansUp e = none ∧ ¬ n.RollsBack e ∧ ∀ n' ∈ n.step e, n'.NothingRejected

instance (p : Seat) (n : Node) (e : Event) : Decidable (n.Solo p e) :=
  inferInstanceAs (Decidable (_ ∧ _ ∧ _ ∧ _))

/-- What a handler does in a step. -/
def performs (n : Node) : Event → Option RoomEffect
  | .runQuery k _ => n.tasks[k]?.bind fun task ↦ task.state.pending
  | .resume k => (n.upcoming (.resume k)).bind Next.calls
  | _ => none

/-- No step of a handler comes too early for what earlier handlers still owe. A `leave_room`
unsubscribes twice when it takes the last socket out of the room, so that the first time may come
before one subscription. -/
def InTurn (p : Seat) (n : Node) : Event → Prop
  | .runQuery k fate => ∀ x ∈ n.performs (.runQuery k fate),
    x.InTurn (n.owedBefore k) (n.pg.roomCount p.roomId)
  | .resume k => ∀ x ∈ n.performs (.resume k),
    x.InTurn (n.owedBefore k) (n.pg.roomCount p.roomId)
  | .frame s (.leaveRoom payload) => n.empties payload.roomId s = true →
    n.owed.flatten.count .subscribe ≤ 1 ∨
      n.owed.flatten.count .unsubscribe < n.pg.roomCount p.roomId
  | _ => True

instance (p : Seat) (n : Node) (e : Event) : Decidable (n.InTurn p e) := by
  cases e with
  | frame s f => cases f <;> (dsimp only [InTurn]; infer_instance)
  | _ => dsimp only [InTurn]; infer_instance

/-- A frame is handled when the handlers of all frames before it have ended. -/
def OneByOne (n : Node) (e : Event) : Prop := e.frame?.isSome = true → n.AllEnded

instance (n : Node) (e : Event) : Decidable (n.OneByOne e) :=
  inferInstanceAs (Decidable (_ → _))

variable {n n' : Node} {p : Seat} {nodeId : JsString}

/-! ## Statements -/

/-- The four parts of a standing. -/
theorem standing_congr (hpresence : n'.db.presence = n.db.presence)
    (htyping : n'.db.typing = n.db.typing)
    (hcount : n'.pg.roomCount p.roomId = n.pg.roomCount p.roomId)
    (hsockets : n'.socketsOf p.roomId = n.socketsOf p.roomId) :
    n'.standing p = n.standing p := by
  rw [standing, standing, Db.presenceOf, Db.presenceOf, Db.typingOf, Db.typingOf, hpresence,
    htyping, hcount, hsockets]

/-- A statement of a handler does what its stage says, and no more. -/
theorem standing_of_ran {stage : Stage} {q : Query} (hroom : stage.room? = some p.roomId)
    (hrequest : stage.request p.userId nodeId = .query q) (hran : Db.Ran n.db q n'.db)
    (hcount : n'.pg.roomCount p.roomId = n.pg.roomCount p.roomId)
    (hsockets : n'.socketsOf p.roomId = n.socketsOf p.roomId) :
    n'.standing p = stage.writes.toList.foldl (Standing.apply nodeId) (n.standing p) ∧
      n'.db.roomMembers = n.db.roomMembers := by
  have hreads : n'.db = n.db → n'.standing p = n.standing p ∧
      n'.db.roomMembers = n.db.roomMembers := fun hdb ↦
    ⟨standing_congr (by rw [hdb]) (by rw [hdb]) hcount hsockets, by rw [hdb]⟩
  have hown : ∀ {r}, Uuid.parse p.roomId = some r → r = p.room := fun hr ↦
    Option.some.inj (hr.symm.trans p.parses)
  obtain ⟨db', hdb⟩ : ∃ db', n'.db = db' := ⟨_, rfl⟩
  rw [hdb] at hran
  cases stage with
  | joinMember R lastSeenSeq =>
    cases hrequest
    cases hran
    exact hreads hdb
  | typingStartMember R =>
    cases hrequest
    cases hran
    exact hreads hdb
  | joinHistory R lastSeenSeq =>
    cases hrequest
    cases hran
    exact hreads hdb
  | joinPresence R =>
    cases hroom
    cases hrequest
    cases hran with
    | upsertPresence _ _ _ r hr hrefs =>
      obtain rfl := hown hr
      refine ⟨?_, by rw [hdb]⟩
      rw [standing, hdb, hcount, hsockets, Db.presenceOf_upsert]
      rfl
  | leavePresence R =>
    cases hroom
    cases hrequest
    cases hran with
    | deletePresence _ _ r hr =>
      obtain rfl := hown hr
      refine ⟨?_, by rw [hdb]⟩
      rw [standing, hdb, hcount, hsockets, Db.presenceOf_delete]
      rfl
  | typingStartUpsert R =>
    cases hroom
    cases hrequest
    cases hran with
    | upsertTyping _ _ r hr hrefs =>
      obtain rfl := hown hr
      refine ⟨?_, by rw [hdb]⟩
      rw [standing, hdb, hcount, hsockets, Db.typingOf_upsert]
      rfl
  | typingStopDelete R =>
    cases hroom
    cases hrequest
    cases hran with
    | deleteTyping _ _ r hr =>
      obtain rfl := hown hr
      refine ⟨?_, by rw [hdb]⟩
      rw [standing, hdb, hcount, hsockets, Db.typingOf_delete]
      rfl
  | joinSubscribe R lastSeenSeq => cases hrequest
  | leaveUnsubscribe R => cases hrequest
  | sendMember R content => cases hroom
  | sendInsert R content => cases hroom

/-! ## Steps of no handler -/

/-- Rooms, counts and tables are the same. -/
structure Kept (n n' : Node) : Prop where
  rooms : n'.roomSockets = n.roomSockets
  counts : ∀ R, n'.pg.roomCount R = n.pg.roomCount R
  presence : n'.db.presence = n.db.presence
  typing : n'.db.typing = n.db.typing
  members : n'.db.roomMembers = n.db.roomMembers

theorem Kept.standing (h : Kept n n') (p : Seat) : n'.standing p = n.standing p :=
  standing_congr h.presence h.typing (h.counts p.roomId)
    (socketsOf_congr (congrArg (EsMap.get · p.roomId) h.rooms))

theorem tables_of_passive_step {e : Event} (he : e.passive = true)
    (hquery : ∀ q, e ≠ .db (.query q)) (hstep : n.step e = some n') :
    n'.db.presence = n.db.presence ∧ n'.db.typing = n.db.typing ∧
      n'.db.roomMembers = n.db.roomMembers := by
  rcases db_of_dbEvent hstep with ⟨-, hdb⟩ | ⟨d, db, notes, hevent, happly, hdb⟩
  · rw [hdb]
    exact ⟨rfl, rfl, rfl⟩
  · cases e with
    | db d' =>
      obtain rfl := Option.some.inj hevent
      have hdid : Db.Did n.db d' db := Db.did_of_step (by rw [Db.step, happly]; rfl)
      rw [hdb]
      exact Db.tables_of_did (fun q hq ↦ hquery q (congrArg Event.db hq)) hdid
    | runQuery k fate => cases he
    | beginInsert k => cases he
    | _ => cases hevent

/-- Counts change by calls and rollbacks only. -/
theorem counts_of_quiet_step {e : Event} (he : e.quiet = true) (hno : ¬ n.RollsBack e)
    (hstep : n.step e = some n') (R : RoomId) : n'.pg.roomCount R = n.pg.roomCount R := by
  refine PostgresService.roomCount_of_counts_eq ?_ R
  rcases pg_cases_of_quiet_step he hstep with ⟨d, rfl, hinternal, hd⟩ | ⟨ds, hrun, hds⟩
  · refine (PostgresService.counts_of_step (fun R ↦ ?_) hno hd).1
    constructor <;> rintro rfl <;> cases hinternal
  · refine guarded_invariant (fun pg : PostgresService ↦
      pg.roomSubscriptionCounts = n.pg.roomSubscriptionCounts) ?_ rfl
      (guarded_of_forall _ hds _) hrun
    rintro pg d pg' hcounts hd hstep'
    rcases hd with ⟨note, rfl⟩ | ⟨c, rfl⟩ <;>
      exact (PostgresService.counts_of_step (fun R ↦ ⟨by rintro ⟨⟩, by rintro ⟨⟩⟩) id
        hstep').1.trans hcounts

theorem kept_of_passive_step {e : Event} (he : e.passive = true) (hsolo : n.Solo p e)
    (hstep : n.step e = some n') : Kept n n' := by
  obtain ⟨hseat, hcleans, hno, -⟩ := hsolo
  obtain ⟨hpresence, htyping, hmembers⟩ := tables_of_passive_step he
    (by rintro q rfl; exact hseat) hstep
  cases stepped_of_step hstep with
  | connected => exact ⟨rfl, fun _ ↦ rfl, rfl, rfl, rfl⟩
  | received => cases he
  | resumed => cases he
  | marked _ s _ _ hmarked =>
    exact ⟨hmarked.quiet.rooms, fun R ↦ by rw [hmarked.pg], hpresence, htyping, hmembers⟩
  | cleaned _ s _ _ hcleansUp => cases hcleans.symm.trans hcleansUp
  | quiet _ _ hq hquiet =>
    exact ⟨hquiet.rooms, counts_of_quiet_step hq hno hstep, hpresence, htyping, hmembers⟩

/-! ## The invariant -/

/-- What the user will have in the room when the handlers have done all they owe. -/
def target (n : Node) (p : Seat) : Standing :=
  Owed.outcome (Standing.apply n.pg.nodeId) n.owed (n.standing p)

/-- A handler works for the seat: it is about the room, and its check has found the member. -/
def Serves (p : Seat) (task : Task) : Prop :=
  ∀ stage promise, task.state = .awaiting stage promise →
    task.userId = p.userId ∧ stage.room? = some p.roomId ∧
      (stage.checks = true → promise = .query ∨
        ∃ result, promise = .settled (.resolved result) ∧ result.rowCount ≠ 0)

/-- Only the seat is served. In the room, its socket is `alone` or not. -/
structure Serving (p : Seat) (alone : Bool) (n : Node) : Prop where
  user : n.socketUsers[p.socket]? = some p.userId
  tasks : ∀ task ∈ n.tasks, Serves p task
  member : (p.room, p.userId) ∈ n.db.roomMembers
  occupied : n.Occupied
  alone : alone = true ↔ ∀ s ∈ n.socketsOf p.roomId, s = p.socket
  resolved : n.NothingRejected

variable {alone : Bool} {k : ℕ} {task : Task} {stage : Stage}

/-- Handler `k` goes on. -/
theorem target_of_set {state : TaskState} {x : Option RoomEffect} (hget : n.tasks[k]? = some task)
    (htasks : n'.tasks = n.tasks.set k { task with state := state })
    (howes : task.state.owes = x.toList ++ state.owes) (hid : n'.pg.nodeId = n.pg.nodeId)
    (hstanding : n'.standing p = x.toList.foldl (Standing.apply n.pg.nodeId) (n.standing p))
    (hturn : ∀ y ∈ x, y.InTurn (n.owedBefore k) (n.pg.roomCount p.roomId)) :
    n'.target p = n.target p := by
  have howed : n'.owed = n.owed.set k state.owes := by
    rw [owed, owed, htasks, List.map_set]
  have hgetOwed : n.owed[k]? = some (x.toList ++ state.owes) := by
    rw [owed, List.getElem?_map, hget, Option.map_some, howes]
  rw [target, target, hid, howed, hstanding]
  exact Owed.outcome_set hgetOwed fun y hy ↦ Standing.commutes_of_inTurn (hturn y hy)

theorem Serving.set (h : Serving p alone n) {state : TaskState}
    (htasks : n'.tasks = n.tasks.set k { task with state := state })
    (huser : n'.socketUsers[p.socket]? = some p.userId) (hoccupied : n'.Occupied)
    (hresolved : n'.NothingRejected) (hrooms : n'.roomSockets = n.roomSockets)
    (hmembers : n'.db.roomMembers = n.db.roomMembers)
    (hserves : Serves p { task with state := state }) : Serving p alone n' := by
  refine ⟨huser, fun task' htask' ↦ ?_, hmembers ▸ h.member, hoccupied, ?_, hresolved⟩
  · rw [htasks] at htask'
    rcases List.mem_or_eq_of_mem_set htask' with htask' | rfl
    · exact h.tasks task' htask'
    · exact hserves
  · rw [h.alone, socketsOf_congr (congrArg (EsMap.get · p.roomId) hrooms)]

/-! ## Continuations -/

/-- A fulfilled promise takes a handler on by what its stage says, if it is about a member. -/
theorem later_eq (result : QueryResult) (hrows : stage.checks = true → result.rowCount ≠ 0)
    (pg : PostgresService) (userId : UserId) :
    stage.later = (stage.proceed result).next.calls.toList ++
      (afterTurn pg userId (stage.proceed result).next).2.owes := by
  cases stage with
  | joinMember R lastSeenSeq =>
    rw [Stage.proceed, if_neg (hrows rfl)]
    rfl
  | typingStartMember R =>
    rw [Stage.proceed, if_neg (hrows rfl)]
    rfl
  | sendMember R content =>
    rw [Stage.proceed, if_neg (hrows rfl)]
    rfl
  | joinSubscribe R lastSeenSeq => cases lastSeenSeq <;> rfl
  | _ => rfl

/-- A handler stays with its room, and checks once. -/
theorem room?_of_proceed {result : QueryResult} {stage' : Stage} {R : RoomId}
    (hroom : stage.room? = some R) (hnext : (stage.proceed result).next = .await stage') :
    stage'.room? = some R ∧ stage'.checks = false := by
  cases stage with
  | joinSubscribe R' lastSeenSeq =>
    cases lastSeenSeq <;> cases hnext <;> exact ⟨hroom, rfl⟩
  | sendMember R' content => cases hroom
  | sendInsert R' content => cases hroom
  | _ =>
    simp only [Stage.proceed] at hnext
    try split at hnext
    all_goals cases hnext
    all_goals exact ⟨hroom, rfl⟩

theorem serves_of_proceed {result : QueryResult} (hroom : stage.room? = some p.roomId)
    (huser : task.userId = p.userId) (pg : PostgresService) :
    Serves p { task with state := (afterTurn pg task.userId (stage.proceed result).next).2 } := by
  rintro stage' promise' hstate
  cases hnext : (stage.proceed result).next with
  | await stage'' =>
    rw [hnext] at hstate
    cases hstate
    obtain ⟨hroom', hchecks⟩ := room?_of_proceed hroom hnext
    exact ⟨huser, hroom', fun h ↦ absurd (hchecks.symm.trans h) Bool.false_ne_true⟩
  | returned =>
    rw [hnext] at hstate
    cases hstate
  | threw =>
    rw [hnext] at hstate
    cases hstate

/-- What the end of a turn does to the count of the room. -/
theorem standing_of_turn {next : Next} (hroom : ∀ stage', next = .await stage' →
      stage'.room? = some p.roomId) {userId : UserId}
    (hpg : n'.pg = (afterTurn n.pg userId next).1) (hrooms : n'.roomSockets = n.roomSockets)
    (hdb : n'.db = n.db) :
    n'.standing p = next.calls.toList.foldl (Standing.apply n.pg.nodeId) (n.standing p) := by
  have hcount := congrArg (PostgresService.roomCount · p.roomId) hpg
  simp only [roomCount_afterTurn] at hcount
  have hsockets : n'.socketsOf p.roomId = n.socketsOf p.roomId :=
    socketsOf_congr (congrArg (EsMap.get · p.roomId) hrooms)
  rw [standing, hdb, hsockets, hcount]
  cases next with
  | returned => rfl
  | threw => rfl
  | await stage' =>
    have hroom' := hroom stage' rfl
    cases stage' with
    | joinSubscribe R lastSeenSeq =>
      rw [if_pos (by rw [Next.subscribes, ← hroom', Stage.room?])]
      rfl
    | leaveUnsubscribe R =>
      rw [if_neg (by rintro ⟨⟩), if_pos (by rw [Next.unsubscribes, ← hroom', Stage.room?])]
      rfl
    | _ => rfl

/-- **A handler continues.** -/
theorem Serving.resume (h : Serving p alone n) (hsolo : n.Solo p (.resume k))
    (hturn : n.InTurn p (.resume k)) (hstep : n.step (.resume k) = some n') :
    Serving p alone n' ∧ n'.target p = n.target p := by
  obtain ⟨task, stage, settled, hresumed⟩ := resumed_of_step hstep
  obtain ⟨promise, hstate, hsettled⟩ := hresumed.awaiting
  obtain ⟨hsame, hrooms, hpg, -⟩ := observeCheck_frame n k stage settled
  obtain ⟨huser, hroom, hchecks⟩ := h.tasks task (List.mem_of_getElem? hresumed.get) _ _ hstate
  -- The promise was fulfilled, and that of a check with a row.
  obtain ⟨result, rfl⟩ : ∃ result, settled = .resolved result := by
    cases settled with
    | resolved result => exact ⟨result, rfl⟩
    | rejected =>
      refine absurd hsettled (h.resolved task (List.mem_of_getElem? hresumed.get) promise ?_)
      rw [hstate]
      rfl
  have hrows : stage.checks = true → result.rowCount ≠ 0 := fun hcheck ↦ by
    rcases hchecks hcheck with rfl | ⟨result', rfl, hrows⟩
    · cases hsettled
    · cases hsettled
      exact hrows
  have hpg' : n'.pg = (afterTurn n.pg task.userId (stage.proceed result).next).1 := by
    rw [hresumed.turned.pg, hpg]
    rfl
  have htasks : n'.tasks = n.tasks.set k
      { task with state := (afterTurn n.pg task.userId (stage.proceed result).next).2 } := by
    rw [hresumed.turned.tasks, hsame.tasks, hpg]
    rfl
  have hrooms' : n'.roomSockets = n.roomSockets := hresumed.turned.rooms.trans hrooms
  have hdb : n'.db = n.db := hresumed.turned.db.trans hsame.db
  have hpending : ∀ promise : Promise, n.settledOf promise = some (.resolved result) →
      TaskState.owes (.awaiting stage promise) = stage.later := by
    rintro (_ | _ | _ | _) hsettled'
    · cases hsettled'
    · rfl
    · rfl
    · rfl
  refine ⟨h.set htasks (socketUser_of_step hstep h.user) (h.occupied.step hstep)
    (hsolo.2.2.2 n' hstep) hrooms' (by rw [hdb]) (serves_of_proceed hroom huser n.pg), ?_⟩
  refine target_of_set hresumed.get htasks ?_ (nodeId_of_step hstep)
    (standing_of_turn (fun stage' hnext ↦ (room?_of_proceed hroom hnext).1) hpg' hrooms' hdb)
    fun y hy ↦ hturn y ?_
  · rw [hstate, hpending promise hsettled]
    exact later_eq result hrows n.pg task.userId
  · rw [performs, upcoming_of_resumed hresumed]
    exact hy

/-! ## Statements that run -/

/-- A statement whose promise is not rejected has been executed and answered. -/
theorem runQuery_of_nothingRejected {q : Query} {fate : Fate} (hget : n.tasks[k]? = some task)
    (h : (n.runQuery k task stage q fate).NothingRejected) :
    ∃ db result notes, n.db.exec q = some (db, result, notes) ∧
      n.runQuery k task stage q fate =
        (n.withDb db notes).setPromise k task stage (.settled (.resolved result)) := by
  have hrejected : ∀ m : Node, m.tasks = n.tasks →
      ¬ (m.setPromise k task stage (.settled .rejected)).NothingRejected := by
    intro m hm hresolved
    have hlt : k < m.tasks.length := by
      rw [hm]
      exact (List.getElem?_eq_some_iff.mp hget).1
    exact hresolved _ (List.mem_of_getElem? (List.getElem?_set_self hlt)) _ rfl rfl
  have hdb : ∀ db notes, (n.withDb db notes).tasks = n.tasks := fun db notes ↦
    (Outputs.withDb (S := fun _ ↦ True) db notes).tasks
  unfold Node.runQuery at h ⊢
  split at h
  · rename_i db result notes hexec
    exact ⟨db, result, notes, hexec, rfl⟩
  · exact absurd h (hrejected _ (hdb _ _))
  · exact absurd h (hrejected n rfl)

/-- The check of a member finds a row. -/
theorem rowCount_of_check {q : Query} {db : Db} {result : QueryResult} {notes : List Notification}
    (hmember : (p.room, p.userId) ∈ n.db.roomMembers) (hroom : stage.room? = some p.roomId)
    (hchecks : stage.checks = true) (hrequest : stage.request p.userId nodeId = .query q)
    (hexec : n.db.exec q = some (db, result, notes)) : result.rowCount ≠ 0 := by
  have hselect : n.db.exec (.selectMember p.roomId p.userId) = some (db, result, notes) →
      result.rowCount ≠ 0 := by
    intro h
    simp only [Db.exec, p.parses, Option.bind_eq_bind, Option.bind_some, Db.isMember, hmember,
      decide_true, if_true, Option.pure_def, Option.some.injEq, Prod.mk.injEq] at h
    obtain ⟨-, rfl, -⟩ := h
    exact Nat.one_ne_zero
  cases stage with
  | joinMember R lastSeenSeq =>
    cases hroom
    cases hrequest
    exact hselect hexec
  | typingStartMember R =>
    cases hroom
    cases hrequest
    exact hselect hexec
  | sendMember R content => cases hroom
  | _ => cases hchecks

/-- **A statement runs.** -/
theorem Serving.runQuery (h : Serving p alone n) {fate : Fate} (hsolo : n.Solo p (.runQuery k fate))
    (hturn : n.InTurn p (.runQuery k fate)) (hstep : n.step (.runQuery k fate) = some n') :
    Serving p alone n' ∧ n'.target p = n.target p := by
  have hresolved := hsolo.2.2.2 n' hstep
  have huser' := socketUser_of_step hstep h.user
  have hoccupied := h.occupied.step hstep
  have hid := nodeId_of_step hstep
  have hcounts := counts_of_quiet_step rfl hsolo.2.2.1 hstep
  have hrooms := (quiet_of_step rfl hstep).rooms
  obtain ⟨task, stage, q, hget, hstate, hrequest, rfl⟩ := ran_of_step hstep
  obtain ⟨db, result, notes, hexec, hran⟩ := runQuery_of_nothingRejected hget hresolved
  obtain ⟨huser, hroom, -⟩ := h.tasks task (List.mem_of_getElem? hget) _ _ hstate
  rw [huser] at hrequest
  have hdb : (n.runQuery k task stage q fate).db = db := by
    rw [hran]
    exact (withDb_frame n db notes).1
  have htasks : (n.runQuery k task stage q fate).tasks =
      n.tasks.set k { task with state := .awaiting stage (.settled (.resolved result)) } := by
    rw [hran, ← (Outputs.withDb (S := fun _ ↦ True) (n := n) db notes).tasks]
    rfl
  obtain ⟨hstanding, hmembers⟩ := standing_of_ran hroom hrequest (hdb ▸ Db.ran_of_exec hexec)
    (hcounts p.roomId) (socketsOf_congr (congrArg (EsMap.get · p.roomId) hrooms))
  refine ⟨h.set htasks huser' hoccupied hresolved hrooms hmembers ?_, ?_⟩
  · rintro stage' promise' ⟨⟩
    exact ⟨huser, hroom, fun hcheck ↦ Or.inr ⟨result, rfl,
      rowCount_of_check h.member hroom hcheck hrequest hexec⟩⟩
  · refine target_of_set hget htasks ?_ hid hstanding fun y hy ↦ hturn y ?_
    · rw [hstate]
      rfl
    · rw [performs, hget, Option.bind_some, hstate]
      exact hy

/-! ## Frames -/

theorem room?_firstState {userId : UserId} {f : ClientFrame} {promise : Promise}
    (hroom : f.room? = some p.roomId) (hstate : firstState userId f = .awaiting stage promise) :
    stage.room? = some p.roomId ∧ promise = .query := by
  by_cases hu : userId = []
  · simp only [firstState, handleFrame, hu, if_true] at hstate
    cases hstate
  · simp only [firstState, handleFrame, hu, if_false] at hstate
    cases f with
    | sendMessage payload => cases hroom
    | null => cases hroom
    | unknown => cases hroom
    | invalid err => cases hroom
    | _ =>
      cases hstate
      exact ⟨hroom, rfl⟩

/-- The socket is the last one of the room. -/
theorem Serving.empties_eq (h : Serving p alone n) :
    n.empties p.roomId p.socket = ((n.standing p).joined && alone) := by
  rw [Bool.eq_iff_iff, h.occupied.empties_iff, Bool.and_eq_true, ← h.alone, standing,
    decide_eq_true_eq]

/-- What a frame changes at once. -/
theorem Serving.standing_receive (h : Serving p alone n) {f : ClientFrame}
    (hroom : f.room? = some p.roomId) (hreceived : Received n n' p.socket p.userId f) :
    n'.standing p = (n.standing p).receive alone f := by
  have hsockets : n'.socketsOf p.roomId =
      (n.updateRooms n.tasks.length p.socket f).socketsOf p.roomId :=
    socketsOf_congr (congrArg (EsMap.get · p.roomId) hreceived.rooms)
  rw [standing, hreceived.db, hreceived.pg, hsockets]
  cases f with
  | joinRoom payload =>
    have hR : payload.roomId = p.roomId := Option.some.inj hroom
    have hjoined : p.socket ∈
        (n.updateRooms n.tasks.length p.socket (.joinRoom payload)).socketsOf p.roomId :=
      mem_socketsOf_updateRooms_join.mpr (Or.inl ⟨hR.symm, rfl⟩)
    rw [decide_eq_true hjoined]
    rfl
  | leaveRoom payload =>
    have hR : payload.roomId = p.roomId := Option.some.inj hroom
    have hleft : p.socket ∉
        (n.updateRooms n.tasks.length p.socket (.leaveRoom payload)).socketsOf p.roomId :=
      fun h ↦ (mem_socketsOf_updateRooms_leave.mp h).2 ⟨hR.symm, rfl⟩
    rw [decide_eq_false hleft, roomCount_updateRooms_leave, hR, h.empties_eq, Standing.receive]
    cases (n.standing p).joined && alone with
    | true => rw [if_pos ⟨rfl, rfl⟩, if_pos rfl]; rfl
    | false => rw [if_neg (by rintro ⟨-, ⟨⟩⟩), if_neg Bool.false_ne_true]; rfl
  | sendMessage payload => cases hroom
  | _ => rfl

/-- No other socket comes into the room, or leaves it. -/
theorem others_receive {f : ClientFrame} (hroom : f.room? = some p.roomId)
    (hreceived : Received n n' p.socket p.userId f) {s : SocketId} (hs : s ≠ p.socket) :
    s ∈ n'.socketsOf p.roomId ↔ s ∈ n.socketsOf p.roomId := by
  rw [socketsOf_congr (congrArg (EsMap.get · p.roomId) hreceived.rooms)]
  cases f with
  | joinRoom payload => simp only [mem_socketsOf_updateRooms_join, hs, and_false, false_or]
  | leaveRoom payload =>
    simp only [mem_socketsOf_updateRooms_leave, hs, and_false, not_false_eq_true, and_true]
  | sendMessage payload => cases hroom
  | _ => rfl

/-- **A frame arrives.** -/
theorem Serving.frame (h : Serving p alone n) {s : SocketId} {f : ClientFrame}
    (hsolo : n.Solo p (.frame s f)) (hturn : n.InTurn p (.frame s f))
    (hstep : n.step (.frame s f) = some n') :
    Serving p alone n' ∧
      n'.target p = (n.target p).handle n.pg.nodeId alone p.userId f := by
  obtain ⟨⟨rfl, hroom⟩, -, -, hresolved⟩ := hsolo
  obtain ⟨socket, hget, -, hreceived⟩ := received_of_step hstep
  have huser : socket.userId = p.userId :=
    Option.some.inj ((socketUsers_get hget).symm.trans h.user)
  rw [huser] at hreceived
  refine ⟨⟨socketUser_of_step hstep h.user, fun task htask ↦ ?_, ?_, h.occupied.step hstep, ?_,
    hresolved n' hstep⟩, ?_⟩
  · rw [hreceived.tasks] at htask
    rcases List.mem_append.mp htask with htask | htask
    · exact h.tasks task htask
    · rw [List.mem_singleton.mp htask]
      rintro stage promise hstate
      obtain ⟨hroom', hpromise⟩ := room?_firstState hroom hstate
      exact ⟨rfl, hroom', fun _ ↦ Or.inl hpromise⟩
  · rw [hreceived.db]
    exact h.member
  · rw [h.alone]
    refine forall_congr' fun s ↦ ?_
    by_cases hs : s = p.socket
    · simp only [hs, implies_true]
    · rw [others_receive hroom hreceived hs]
  · have howed : n'.owed = n.owed ++ [(firstState p.userId f).owes] := by
      rw [owed, owed, hreceived.tasks, List.map_append, List.map_singleton]
    rw [target, nodeId_of_step hstep, howed, Owed.outcome_concat,
      h.standing_receive hroom hreceived]
    refine Standing.foldl_receive p.userId_ne_nil alone f fun payload hf hlast ↦ ?_
    subst hf
    have hR : payload.roomId = p.roomId := Option.some.inj hroom
    refine hturn ?_
    rw [hR, h.empties_eq, hlast]

/-- **Step lemma.** The target changes by frames only. -/
theorem Serving.step (h : Serving p alone n) {e : Event} (hsolo : n.Solo p e)
    (hturn : n.InTurn p e) (hstep : n.step e = some n') :
    Serving p alone n' ∧ n'.target p =
      e.frame?.toList.foldl (Standing.handle n.pg.nodeId alone p.userId) (n.target p) := by
  have hinsert : ∀ (k : ℕ) (task : Task) (roomId : RoomId) (content : JsString) (promise : Promise),
      n.tasks[k]? = some task →
      task.state ≠ .awaiting (.sendInsert roomId content) promise := by
    intro k task roomId content promise hget hstate
    cases (h.tasks task (List.mem_of_getElem? hget) _ _ hstate).2.1
  have hpassive : e.passive = true → Serving p alone n' ∧ n'.target p = n.target p := by
    intro he
    have hkept := kept_of_passive_step he hsolo hstep
    have htasks := tasks_of_passive_step he hstep
    refine ⟨⟨socketUser_of_step hstep h.user, fun task htask ↦ h.tasks task (htasks ▸ htask),
      hkept.members ▸ h.member, h.occupied.step hstep, ?_, hsolo.2.2.2 n' hstep⟩, ?_⟩
    · rw [h.alone, socketsOf_congr (congrArg (EsMap.get · p.roomId) hkept.rooms)]
    · rw [target, target, nodeId_of_step hstep, hkept.standing, owed, owed, htasks]
  cases e with
  | frame s f => exact h.frame hsolo hturn hstep
  | resume k => exact h.resume hsolo hturn hstep
  | runQuery k fate => exact h.runQuery hsolo hturn hstep
  | beginInsert k =>
    simp only [Node.step, Option.bind_eq_bind, Option.bind_eq_some_iff] at hstep
    obtain ⟨task, hget, hstep⟩ := hstep
    split at hstep
    · rename_i roomId content hstate
      exact absurd hstate (hinsert k task roomId content _ hget)
    · cases hstep
  | insertSettles k lost =>
    simp only [Node.step, Option.bind_eq_bind, Option.bind_eq_some_iff] at hstep
    obtain ⟨task, hget, hstep⟩ := hstep
    split at hstep
    · rename_i roomId content t hstate
      exact absurd hstate (hinsert k task roomId content _ hget)
    · cases hstep
  | _ => exact hpassive rfl

/-! ## Runs -/

variable {es : List Event}

/-- **Run lemma.** The target is what handling the frames alone makes of it. -/
theorem Serving.run (h : Serving p alone n) (hsolo : Guarded Node.step (Solo p) n es)
    (hturn : Guarded Node.step (InTurn p) n es) (hrun : Execution.run Node.step n es = some n') :
    Serving p alone n' ∧ n'.target p = (es.filterMap Event.frame?).foldl
      (Standing.handle n.pg.nodeId alone p.userId) (n.target p) := by
  induction es generalizing n with
  | nil =>
    rw [run_nil, Option.some.injEq] at hrun
    exact ⟨hrun ▸ h, by rw [hrun]; rfl⟩
  | cons e es ih =>
    obtain ⟨m, hm, hrun⟩ := run_cons_eq_some.mp hrun
    obtain ⟨hserving, htarget⟩ := h.step hsolo.1 hturn.1 hm
    obtain ⟨hserving', htarget'⟩ := ih hserving (hsolo.2 m hm) (hturn.2 m hm) hrun
    refine ⟨hserving', ?_⟩
    rw [htarget', htarget, nodeId_of_step hm, List.filterMap_cons]
    cases e.frame? <;> rfl

/-- At the end nothing is owed. -/
theorem target_of_allEnded (h : n.AllEnded) (p : Seat) : n.target p = n.standing p := by
  refine Owed.outcome_of_forall_nil (fun l hl ↦ ?_) _
  obtain ⟨task, htask, rfl⟩ := List.mem_map.mp hl
  rw [h task htask]
  rfl

/-! ## One frame after another -/

/-- All handlers but the last have ended. -/
def LastOnly (n : Node) : Prop :=
  ∀ k task, n.tasks[k]? = some task → task.state ≠ .ended → k + 1 = n.tasks.length

theorem LastOnly.owedBefore_eq (h : LastOnly n) (hget : n.tasks[k]? = some task)
    (hstate : task.state ≠ .ended) : n.owedBefore k = [] := by
  refine List.flatten_eq_nil_iff.mpr fun l hl ↦ ?_
  obtain ⟨j, hj⟩ := List.mem_iff_getElem?.mp hl
  rw [List.getElem?_take, Option.ite_none_right_eq_some, owed, List.getElem?_map,
    Option.map_eq_some_iff] at hj
  obtain ⟨hjk, task', hget', rfl⟩ := hj
  by_contra howes
  have hlast := h j task' hget' fun hended ↦ howes (by rw [hended]; rfl)
  have hlast' := h k task hget hstate
  omega

/-- A handler that takes a step has not ended. -/
theorem LastOnly.inTurn (h : LastOnly n) {e : Event} (hone : n.OneByOne e)
    (hstep : n.step e = some n') (p : Seat) : n.InTurn p e := by
  cases e with
  | runQuery k fate =>
    obtain ⟨task, stage, q, hget, hstate, -⟩ := ran_of_step hstep
    rintro x -
    rw [h.owedBefore_eq hget (by rw [hstate]; rintro ⟨⟩)]
    exact RoomEffect.inTurn_nil _ x
  | resume k =>
    obtain ⟨task, stage, settled, hresumed⟩ := resumed_of_step hstep
    obtain ⟨promise, hstate, -⟩ := hresumed.awaiting
    rintro x -
    rw [h.owedBefore_eq hresumed.get (by rw [hstate]; rintro ⟨⟩)]
    exact RoomEffect.inTurn_nil _ x
  | frame s f =>
    have hended := hone rfl
    have hnone : n.owed.flatten = [] := by
      refine List.flatten_eq_nil_iff.mpr fun l hl ↦ ?_
      obtain ⟨task, htask, rfl⟩ := List.mem_map.mp hl
      rw [hended task htask]
      rfl
    cases f with
    | leaveRoom payload =>
      intro _
      rw [hnone]
      exact Or.inl (Nat.zero_le 1)
    | _ => trivial
  | _ => trivial

theorem LastOnly.set (h : LastOnly n) {state : TaskState} (hget : n.tasks[k]? = some task)
    (hstate : task.state ≠ .ended)
    (htasks : n'.tasks = n.tasks.set k { task with state := state }) : LastOnly n' := by
  intro j task' hget' hstate'
  rw [htasks, List.length_set]
  rw [htasks] at hget'
  rcases Lists.of_getElem?_set hget' with ⟨-, hget'⟩ | ⟨rfl, -⟩
  · exact h j task' hget' hstate'
  · exact h k task hget hstate

theorem LastOnly.step (h : LastOnly n) {e : Event} (hone : n.OneByOne e)
    (hstep : n.step e = some n') : LastOnly n' := by
  rcases handler_cases hstep with hidle | ⟨s, f, socket, rfl, -, hreceived⟩ |
    ⟨k, task, stage, settled, rfl, hresumed⟩
  · rcases hidle.settles with hsame | ⟨k, task, stage, promise, promise', hget, hstate, -, htasks⟩
    · rwa [LastOnly, hsame]
    · exact h.set hget (by rw [hstate]; rintro ⟨⟩) htasks
  · intro k task hget hstate
    rw [hreceived.tasks] at hget ⊢
    rcases Lists.getElem?_concat_eq_some.mp hget with hget | ⟨rfl, -⟩
    · exact absurd (hone rfl task (List.mem_of_getElem? hget)) hstate
    · rw [List.length_append, List.length_singleton]
  · obtain ⟨promise, hstate, -⟩ := hresumed.awaiting
    have htasks := hresumed.turned.tasks
    rw [(observeCheck_frame n k stage settled).1.tasks] at htasks
    exact h.set hresumed.get (by rw [hstate]; rintro ⟨⟩) htasks

/-- One frame after another: every step comes in turn. -/
theorem LastOnly.guarded (h : LastOnly n) (hone : Guarded Node.step OneByOne n es)
    (hrun : Execution.run Node.step n es = some n') (p : Seat) :
    Guarded Node.step (InTurn p) n es := by
  induction es generalizing n with
  | nil => exact trivial
  | cons e es ih =>
    obtain ⟨m, hm, hrun⟩ := run_cons_eq_some.mp hrun
    refine ⟨h.inTurn hone.1 hm p, fun m' hm' ↦ ?_⟩
    obtain rfl := Option.some.inj (hm.symm.trans hm')
    exact ih (h.step hone.1 hm) (hone.2 m hm) hrun

/-! ## The frames of one socket -/

/-- The seat is served once all handlers have ended. -/
theorem serving_of_allEnded (h : n.AllEnded) (huser : n.socketUsers[p.socket]? = some p.userId)
    (hmember : (p.room, p.userId) ∈ n.db.roomMembers) (hoccupied : n.Occupied) :
    ∃ alone, Serving p alone n := by
  refine ⟨decide (∀ s ∈ (n.socketsOf p.roomId).items, s = p.socket), huser, fun task htask ↦ ?_,
    hmember, hoccupied, decide_eq_true_iff, fun task htask promise hpromise ↦ ?_⟩
  · rintro stage promise hstate
    rw [h task htask] at hstate
    cases hstate
  · rw [h task htask] at hpromise
    cases hpromise

/-- From any reachable state in which no handler is running: when one socket of a member sends
frames that join and leave one room and start and stop typing there, no other socket is active and
nothing fails, two runs with the same frames, one of them one by one and the other in turn, end with
the same standing once their handlers have ended. -/
theorem standing_eq_one_by_one {nodeId : JsString} {es₀ es' : List Event} {n₀ : Node}
    (hstart : run step (start nodeId) es₀ = some n₀) (hended₀ : n₀.AllEnded)
    (huser : n₀.socketUsers[p.socket]? = some p.userId)
    (hmember : (p.room, p.userId) ∈ n₀.db.roomMembers)
    (hrun : run step n₀ es = some n) (hrun' : run step n₀ es' = some n')
    (hsolo : Guarded step (Solo p) n₀ es) (hsolo' : Guarded step (Solo p) n₀ es')
    (hframes : es.filterMap Event.frame? = es'.filterMap Event.frame?)
    (hturn : Guarded step (InTurn p) n₀ es) (hone : Guarded step OneByOne n₀ es')
    (hended : n.AllEnded) (hended' : n'.AllEnded) : n.standing p = n'.standing p := by
  obtain ⟨alone, hserving⟩ :=
    serving_of_allEnded hended₀ huser hmember (occupied_of_run hstart)
  have hlast : LastOnly n₀ := fun k task hget hstate ↦
    absurd (hended₀ task (List.mem_of_getElem? hget)) hstate
  obtain ⟨-, htarget⟩ := hserving.run hsolo hturn hrun
  obtain ⟨-, htarget'⟩ := hserving.run hsolo' (hlast.guarded hone hrun' p) hrun'
  rw [← target_of_allEnded hended, ← target_of_allEnded hended', htarget, htarget', hframes]

/-- A member has connected. -/
def oneMember : List Event :=
  [.db (.createUser [0x61] [0x61]), .db (.createRoom .nil),
    .db (.query (.insertMember Uuid.nil.text [0x61])), .connect [0x61]]

def oneSeat : Seat := ⟨0, [0x61], Uuid.nil.text, .nil, by decide, by decide⟩

def typingStart : Event := .frame 0 (.typingStart ⟨Uuid.nil.text, Uuid.nil.text_ne_nil⟩)

def typingStop : Event := .frame 0 (.typingStop ⟨Uuid.nil.text, Uuid.nil.text_ne_nil⟩)

/-- The frames `typing_start` and `typing_stop`, handled one by one. -/
def typingOneByOne : List Event :=
  [typingStart, .runQuery 0 .answered, .resume 0, .runQuery 0 .answered, .resume 0,
    typingStop, .runQuery 1 .answered, .resume 1]

/-- The handlers overlap, and the row is deleted after it has been inserted. -/
def typingOverlapping : List Event :=
  [typingStart, typingStop, .runQuery 0 .answered, .resume 0, .runQuery 0 .answered,
    .runQuery 1 .answered, .resume 1, .resume 0]

/-- The handlers overlap, and the row is deleted before it is inserted. -/
def typingOvertaken : List Event :=
  [typingStart, typingStop, .runQuery 1 .answered, .resume 1, .runQuery 0 .answered, .resume 0,
    .runQuery 0 .answered, .resume 0]

theorem standing_eq_one_by_one_overlapping :
    ∃ n₀, run step (start []) oneMember = some n₀ ∧ ∃ n n', run step n₀ typingOverlapping = some n ∧
      run step n₀ typingOneByOne = some n' ∧ n.standing oneSeat = n'.standing oneSeat := by
  refine exists_run_of_any (fun n₀ : Node ↦ (n₀.AllEnded ∧
      n₀.socketUsers[oneSeat.socket]? = some oneSeat.userId ∧
      (oneSeat.room, oneSeat.userId) ∈ n₀.db.roomMembers) ∧
      (Guarded step (Solo oneSeat) n₀ typingOverlapping ∧
        Guarded step (Solo oneSeat) n₀ typingOneByOne ∧
        Guarded step (InTurn oneSeat) n₀ typingOverlapping ∧
        Guarded step OneByOne n₀ typingOneByOne) ∧
      (run step n₀ typingOverlapping).any (fun n ↦ decide n.AllEnded) = true ∧
      (run step n₀ typingOneByOne).any (fun n ↦ decide n.AllEnded) = true) (by decide +kernel) ?_
  rintro n₀ hstart ⟨⟨hended₀, huser, hmember⟩, ⟨hsolo, hsolo', hturn, hone⟩, hends, hends'⟩
  obtain ⟨n, hrun, hended⟩ := (Option.any_eq_true _ _).mp hends
  obtain ⟨n', hrun', hended'⟩ := (Option.any_eq_true _ _).mp hends'
  exact ⟨n, n', hrun, hrun', standing_eq_one_by_one hstart hended₀ huser hmember hrun hrun' hsolo
    hsolo' (by decide) hturn hone (of_decide_eq_true hended) (of_decide_eq_true hended')⟩

/-- The user has a row of `typing` when all handlers have ended, although the last frame was
`typing_stop`, and nothing else has happened. -/
theorem typing_stop_overtakes :
    ∃ n₀, run step (start []) oneMember = some n₀ ∧ (n₀.AllEnded ∧
        n₀.socketUsers[oneSeat.socket]? = some oneSeat.userId ∧
        (oneSeat.room, oneSeat.userId) ∈ n₀.db.roomMembers ∧
        Guarded step (Solo oneSeat) n₀ typingOvertaken ∧
        Guarded step (Solo oneSeat) n₀ typingOneByOne ∧
        Guarded step OneByOne n₀ typingOneByOne) ∧
      typingOvertaken.filterMap Event.frame? = typingOneByOne.filterMap Event.frame? ∧
      ∃ n n', run step n₀ typingOvertaken = some n ∧ run step n₀ typingOneByOne = some n' ∧
        n.AllEnded ∧ n'.AllEnded ∧ n.standing oneSeat ≠ n'.standing oneSeat := by
  refine exists_run_of_any (fun n₀ : Node ↦ (n₀.AllEnded ∧
      n₀.socketUsers[oneSeat.socket]? = some oneSeat.userId ∧
      (oneSeat.room, oneSeat.userId) ∈ n₀.db.roomMembers ∧
      Guarded step (Solo oneSeat) n₀ typingOvertaken ∧
      Guarded step (Solo oneSeat) n₀ typingOneByOne ∧ Guarded step OneByOne n₀ typingOneByOne) ∧
      (run step n₀ typingOvertaken).any (fun n ↦
        decide (n.AllEnded ∧ (n.standing oneSeat).typing = true)) = true ∧
      (run step n₀ typingOneByOne).any (fun n ↦
        decide (n.AllEnded ∧ (n.standing oneSeat).typing = false)) = true) (by decide +kernel) ?_
  rintro n₀ hstart ⟨hsetting, hends, hends'⟩
  obtain ⟨n, hrun, h⟩ := (Option.any_eq_true _ _).mp hends
  obtain ⟨n', hrun', h'⟩ := (Option.any_eq_true _ _).mp hends'
  obtain ⟨hended, htyping⟩ := of_decide_eq_true h
  obtain ⟨hended', htyping'⟩ := of_decide_eq_true h'
  refine ⟨hsetting, by decide, n, n', hrun, hrun', hended, hended', fun heq ↦ ?_⟩
  rw [heq, htyping'] at htyping
  cases htyping

end Node

end PostgresChat
