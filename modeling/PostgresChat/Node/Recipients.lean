import PostgresChat.Lib.PastTrace
import PostgresChat.Node.Rooms

/-!
# Who receives a broadcast

`broadcastToRoom` sends to the sockets of a room, and `handleFrame` adds a socket to a room before
`handleJoinRoom` has checked that its user is a member. The sockets of a room are therefore those
that have asked to join, whatever became of the request: `RoomsLogged` says so exactly, in terms of
frames and cleanups alone. A refused socket stays among them, and so does one whose check is still
under way.

So confidentiality depends on when the checks are answered, and how. It holds along every run in
which no socket is refused while it is in a room by that request alone, and none is broadcast to
before the first of its requests has been answered (`JoinsChecked`): a socket with a request that
has been answered then has one that has passed (`AnsweredPassed`).
-/

namespace PostgresChat

open Execution PastTrace

namespace Node

/-! ## Requests to join -/

/-- A `join_room` frame of the socket for the room. -/
def Joined (s : SocketId) (R : RoomId) (o : Observation) : Prop := ∃ k, o = .joinReceived k s R

/-- A `leave_room` frame of the socket for the room. -/
def Left (s : SocketId) (R : RoomId) (o : Observation) : Prop := ∃ k, o = .leaveReceived k s R

instance (s : SocketId) (R : RoomId) : DecidablePred (Left s R)
  | .leaveReceived k s' R' =>
    decidable_of_iff (s' = s ∧ R' = R)
      ⟨fun h ↦ ⟨k, by rw [h.1, h.2]⟩, fun ⟨_, h⟩ ↦ by cases h; exact ⟨rfl, rfl⟩⟩
  | .joinReceived .. | .checkPassed _ | .replied .. | .selected .. | .delivered .. | .cleaned _
  | .closed _ | .notified .. | .executed .. => isFalse nofun

/-- What takes the socket out of the room. -/
def TakenOut (s : SocketId) (R : RoomId) (o : Observation) : Prop := Left s R o ∨ o = .cleaned s

instance (s : SocketId) (R : RoomId) : DecidablePred (TakenOut s R) :=
  fun o ↦ inferInstanceAs (Decidable (Left s R o ∨ o = .cleaned s))

/-- The socket has asked to join the room, and has not been taken out since. -/
def Requested (log : List Observation) (s : SocketId) (R : RoomId) : Prop :=
  Since (Joined s R) (TakenOut s R) log

/-- A request of the socket has passed the membership check, and it has not left since the
request. -/
def Authorized (log : List Observation) (s : SocketId) (R : RoomId) : Prop :=
  ∃ k, Since (· = .joinReceived k s R) (Left s R) log ∧ .checkPassed k ∈ log

/-- Whoever is selected for a broadcast is authorized at that moment. -/
def Confidential (log : List Observation) : Prop :=
  Each (fun pre o ↦ ∀ R frame recipients, o = .selected R frame recipients →
    ∀ s ∈ recipients, Authorized pre s R) log

/-! ## Requests and their checks -/

/-- The socket is in the room by the `join_room` of handler `k`. -/
def EnteredBy (log : List Observation) (k : ℕ) (s : SocketId) (R : RoomId) : Prop :=
  Since (· = .joinReceived k s R) (TakenOut s R) log

instance (log : List Observation) (k : ℕ) (s : SocketId) (R : RoomId) :
    Decidable (EnteredBy log k s R) :=
  inferInstanceAs (Decidable (Since (· = .joinReceived k s R) (TakenOut s R) log))

/-- The socket is in the room by a `join_room` that has passed the check. -/
def Passed (log : List Observation) (s : SocketId) (R : RoomId) : Prop :=
  ∃ k, EnteredBy log k s R ∧ .checkPassed k ∈ log

/-- Handler `k` awaits the check of a `join_room`. -/
def AwaitsCheck (n : Node) (k : ℕ) : Prop :=
  ∃ R lastSeenSeq, n.tasks[k]?.bind Task.stage? = some (.joinMember R lastSeenSeq)

/-- The check handler `k` awaits has failed: it found no membership, or was not carried out. -/
def CheckFailed (n : Node) (k : ℕ) : Prop :=
  ∃ task R lastSeenSeq promise settled, n.tasks[k]? = some task ∧
    task.state = .awaiting (.joinMember R lastSeenSeq) promise ∧
    n.settledOf promise = some settled ∧ ∀ result, settled = .resolved result → result.rowCount = 0

/-- What the checks have to do for confidentiality. -/
structure JoinsChecked (n : Node) (e : Event) : Prop where
  /-- When a `join_room` is refused whose socket is still in the room by it, the socket is there by
  another one that has passed. -/
  refused : ∀ k s R, e = .resume k → n.CheckFailed k → EnteredBy n.log k s R → Passed n.log s R
  /-- A broadcast finds, for each socket of the room it can reach, a `join_room` whose check has
  been answered. -/
  answered : ∀ R s, n.BroadcastsTo e R → n.accepts s = true → Requested n.log s R →
    ∃ k, EnteredBy n.log k s R ∧ ¬ n.AwaitsCheck k

/-! ## The sockets of a room -/

/-- The sockets of a room are those that have asked to join it. -/
def RoomsLogged (n : Node) : Prop := ∀ s R, s ∈ n.socketsOf R ↔ Requested n.log s R

/-- The observations that are about rooms. -/
def RoomNeutral : Observation → Prop
  | .joinReceived .. | .leaveReceived .. | .cleaned _ => False
  | _ => True

variable {n n' : Node} {s : SocketId} {R : RoomId} {log : List Observation}

theorem not_joined_and_not_takenOut {o : Observation} (ho : RoomNeutral o) :
    ¬ Joined s R o ∧ ¬ TakenOut s R o := by
  refine ⟨?_, ?_⟩
  · rintro ⟨k, rfl⟩
    exact ho
  · rintro (⟨k, rfl⟩ | rfl) <;> exact ho

theorem requested_append {os : List Observation} (hos : ∀ o ∈ os, RoomNeutral o) :
    Requested (log ++ os) s R ↔ Requested log s R :=
  since_append_of_neutral fun o ho ↦ not_joined_and_not_takenOut (hos o ho)

theorem requested_concat {o : Observation} :
    Requested (log ++ [o]) s R ↔ Joined s R o ∨ Requested log s R ∧ ¬ TakenOut s R o :=
  since_concat

theorem roomNeutral_of_output {S : RoomId → Prop} {o : Observation} (ho : n.Output S o) :
    RoomNeutral o := by
  cases o with
  | joinReceived k s R => exact ho
  | leaveReceived k s R => exact ho
  | cleaned s => exact ho
  | _ => trivial

theorem socketsOf_of_rooms_eq {m : Node} (h : n'.roomSockets = m.roomSockets) (R : RoomId) :
    n'.socketsOf R = m.socketsOf R :=
  socketsOf_congr (by rw [h])

theorem roomsLogged_start (nodeId : JsString) : RoomsLogged (start nodeId) :=
  fun _ _ ↦ ⟨fun h ↦ absurd h EsSet.not_mem_empty, fun h ↦ absurd h not_since_nil⟩

/-- Rooms unchanged and nothing about rooms observed. -/
theorem RoomsLogged.of_neutral (h : RoomsLogged n) (hrooms : n'.roomSockets = n.roomSockets)
    {os : List Observation} (hlog : n'.log = n.log ++ os) (hos : ∀ o ∈ os, RoomNeutral o) :
    RoomsLogged n' := fun s R ↦ by
  rw [socketsOf_of_rooms_eq hrooms, hlog, requested_append hos]
  exact h s R

/-- A frame. -/
theorem RoomsLogged.receive (h : RoomsLogged n) {userId : UserId} {frame : ClientFrame}
    (hreceived : Received n n' s userId frame) : RoomsLogged n' := by
  obtain ⟨os, hlog, hos⟩ := hreceived.log
  have hneutral : ∀ o ∈ os, RoomNeutral o := by
    intro o ho
    obtain ⟨error, -, rfl⟩ := hos o ho
    trivial
  intro s' R'
  rw [socketsOf_of_rooms_eq hreceived.rooms, hlog, requested_append hneutral]
  rcases updateRooms_cases frame with ⟨payload, rfl⟩ | ⟨payload, rfl⟩ | hother
  · rw [roomObservation, requested_concat]
    rw [mem_socketsOf_updateRooms_join, h s' R']
    constructor
    · rintro (⟨rfl, rfl⟩ | hrequested)
      · exact Or.inl ⟨_, rfl⟩
      · refine Or.inr ⟨hrequested, ?_⟩
        rintro (⟨k, heq⟩ | heq) <;> cases heq
    · rintro (⟨k, heq⟩ | hrequested)
      · cases heq
        exact Or.inl ⟨rfl, rfl⟩
      · exact Or.inr hrequested.1
  · rw [roomObservation, requested_concat]
    rw [mem_socketsOf_updateRooms_leave, h s' R']
    constructor
    · rintro ⟨hrequested, hne⟩
      refine Or.inr ⟨hrequested, ?_⟩
      rintro (⟨k, heq⟩ | heq)
      · cases heq
        exact hne ⟨rfl, rfl⟩
      · cases heq
    · rintro (⟨k, heq⟩ | ⟨hrequested, htaken⟩)
      · cases heq
      · refine ⟨hrequested, ?_⟩
        rintro ⟨rfl, rfl⟩
        exact htaken (Or.inl ⟨_, rfl⟩)
  · rw [(hother n _ s).1, (hother n _ s).2, List.append_nil]
    exact h s' R'

/-- A continuation. -/
theorem RoomsLogged.resume (h : RoomsLogged n) {k : ℕ} {task : Task} {stage : Stage}
    {settled : Settled} (hresumed : Resumed n n' k task stage settled) : RoomsLogged n' := by
  obtain ⟨-, hrooms, -, os, hlog, hos⟩ := observeCheck_frame n k stage settled
  obtain ⟨os', hlog', hos'⟩ := hresumed.turned.log
  refine h.of_neutral (hresumed.turned.rooms.trans hrooms)
    (by rw [hlog', hlog, List.append_assoc] : n'.log = n.log ++ (os ++ os')) fun o ho ↦ ?_
  rcases List.mem_append.mp ho with ho | ho
  · rw [hos o ho]
    trivial
  · obtain ⟨-, send, -, rfl⟩ := hos' o ho
    trivial

/-- A cleanup. -/
theorem RoomsLogged.cleaned (h : RoomsLogged n) (hcleaned : Cleaned n n' s) : RoomsLogged n' := by
  obtain ⟨os, hlog, hos⟩ := hcleaned.log
  have hneutral : ∀ o ∈ os, RoomNeutral o := fun o ho ↦ hos o ho ▸ trivial
  intro s' R'
  rw [hcleaned.rooms, hlog, requested_concat, requested_append hneutral, h s' R']
  constructor
  · rintro ⟨hrequested, hne⟩
    refine Or.inr ⟨hrequested, ?_⟩
    rintro (⟨k, heq⟩ | heq)
    · cases heq
    · cases heq
      exact hne rfl
  · rintro (⟨k, heq⟩ | ⟨hrequested, htaken⟩)
    · cases heq
    · refine ⟨hrequested, ?_⟩
      rintro rfl
      exact htaken (Or.inr rfl)

/-- **Step lemma.** -/
theorem RoomsLogged.step (h : RoomsLogged n) {e : Event} (hstep : n.step e = some n') :
    RoomsLogged n' := by
  have hquiet : ∀ {S : RoomId → Prop}, Quiet S n n' → RoomsLogged n' := by
    intro S hquiet
    obtain ⟨os, hlog, hos⟩ := hquiet.log
    exact h.of_neutral hquiet.rooms hlog fun o ho ↦ roomNeutral_of_output (hos o ho)
  cases stepped_of_step hstep with
  | connected => exact h
  | received s frame socket _ _ hreceived => exact h.receive hreceived
  | resumed k task stage settled _ hresumed => exact h.resume hresumed
  | marked _ s _ _ hmarked => exact hquiet hmarked.quiet
  | cleaned _ s _ _ _ hcleaned => exact h.cleaned hcleaned
  | quiet _ _ _ hq => exact hquiet hq

/-! ## Answered checks -/

/-- A socket that has a request that has been answered has one that has passed. -/
def AnsweredPassed (n : Node) : Prop :=
  ∀ k s R, EnteredBy n.log k s R → ¬ n.AwaitsCheck k → Passed n.log s R

theorem requested_iff_exists_enteredBy : Requested log s R ↔ ∃ k, EnteredBy log k s R := by
  constructor
  · rintro ⟨pre, _, post, hlog, ⟨k, rfl⟩, hpost⟩
    exact ⟨k, pre, _, post, hlog, rfl, hpost⟩
  · rintro ⟨k, hentered⟩
    exact hentered.mono (fun _ ho ↦ ⟨k, ho⟩) fun _ ↦ id

theorem enteredBy_append {k : ℕ} {os : List Observation} (hos : ∀ o ∈ os, RoomNeutral o) :
    EnteredBy (log ++ os) k s R ↔ EnteredBy log k s R := by
  refine since_append_of_neutral fun o ho ↦ ⟨?_, (not_joined_and_not_takenOut (hos o ho)).2⟩
  rintro rfl
  exact hos _ ho

theorem Passed.append {os : List Observation} (hos : ∀ o ∈ os, RoomNeutral o)
    (h : Passed log s R) : Passed (log ++ os) s R := by
  obtain ⟨k, hentered, hpassed⟩ := h
  exact ⟨k, (enteredBy_append hos).mpr hentered, List.mem_append_left _ hpassed⟩

/-- What does not take the socket out leaves its requests alone. -/
theorem Passed.concat {o : Observation} (ho : ¬ TakenOut s R o) (h : Passed log s R) :
    Passed (log ++ [o]) s R := by
  obtain ⟨k, hentered, hpassed⟩ := h
  exact ⟨k, since_concat.mpr (Or.inr ⟨hentered, ho⟩), List.mem_append_left _ hpassed⟩

theorem Passed.authorized (h : Passed log s R) : Authorized log s R := by
  obtain ⟨k, hentered, hpassed⟩ := h
  exact ⟨k, hentered.mono (fun _ ↦ id) fun _ ↦ Or.inl, hpassed⟩

theorem awaitsCheck_congr {k : ℕ} (h : n'.tasks.map Task.key = n.tasks.map Task.key) :
    n'.AwaitsCheck k ↔ n.AwaitsCheck k := by
  have hstage : ∀ tasks : List Task,
      tasks[k]?.bind Task.stage? = (tasks.map Task.key)[k]?.bind Prod.snd := fun tasks ↦ by
    rw [List.getElem?_map]
    cases tasks[k]? <;> rfl
  rw [AwaitsCheck, AwaitsCheck, hstage, hstage, h]

theorem answeredPassed_start (nodeId : JsString) : AnsweredPassed (start nodeId) :=
  fun _ _ _ h ↦ absurd h not_since_nil

/-- Handlers at their stages, and nothing about rooms observed. -/
theorem AnsweredPassed.of_neutral (h : AnsweredPassed n)
    (htasks : n'.tasks.map Task.key = n.tasks.map Task.key) {os : List Observation}
    (hlog : n'.log = n.log ++ os) (hos : ∀ o ∈ os, RoomNeutral o) : AnsweredPassed n' := by
  intro k s R hentered hanswered
  rw [awaitsCheck_congr htasks] at hanswered
  rw [hlog, enteredBy_append hos] at hentered
  rw [hlog]
  exact (h k s R hentered hanswered).append hos

/-- A frame. The handler of a `join_room` awaits its check. -/
theorem AnsweredPassed.receive (h : AnsweredPassed n) {userId : UserId} {frame : ClientFrame}
    (huser : userId ≠ []) (hreceived : Received n n' s userId frame) : AnsweredPassed n' := by
  obtain ⟨os, hlog, hos⟩ := hreceived.log
  have hneutral : ∀ o ∈ os, RoomNeutral o := by
    intro o ho
    obtain ⟨error, -, rfl⟩ := hos o ho
    trivial
  -- The frame adds a handler and touches no other.
  have hold : ∀ k, ¬ n'.AwaitsCheck k → ¬ n.AwaitsCheck k := by
    rintro k hanswered ⟨R, lastSeenSeq, hstage⟩
    obtain ⟨task, hget, htask⟩ := Option.bind_eq_some_iff.mp hstage
    refine hanswered ⟨R, lastSeenSeq, Option.bind_eq_some_iff.mpr ⟨task, ?_, htask⟩⟩
    rw [hreceived.tasks, List.getElem?_append_left (List.getElem?_eq_some_iff.mp hget).1, hget]
  intro k s' R hentered hanswered
  rw [hlog, enteredBy_append hneutral] at hentered
  rw [hlog]
  refine Passed.append hneutral ?_
  rcases updateRooms_cases frame with ⟨payload, rfl⟩ | ⟨payload, rfl⟩ | hother
  · rw [roomObservation] at hentered ⊢
    rcases since_concat.mp hentered with heq | ⟨hentered, htaken⟩
    · cases heq
      refine absurd ⟨payload.roomId, payload.lastSeenSeq, ?_⟩ hanswered
      rw [hreceived.tasks, List.getElem?_concat_length, Option.bind_some, Task.stage?,
        firstState, handleFrame, if_neg huser]
      rfl
    · exact (h k s' R hentered (hold k hanswered)).concat htaken
  · rw [roomObservation] at hentered ⊢
    rcases since_concat.mp hentered with heq | ⟨hentered, htaken⟩
    · cases heq
    · exact (h k s' R hentered (hold k hanswered)).concat htaken
  · rw [(hother n _ s).2, List.append_nil] at hentered ⊢
    exact h k s' R hentered (hold k hanswered)

/-- A continuation. It answers the check of its own handler only. -/
theorem AnsweredPassed.resume (h : AnsweredPassed n) {k₀ : ℕ} {task : Task} {stage : Stage}
    {settled : Settled}
    (hrefused : ∀ s R, n.CheckFailed k₀ → EnteredBy n.log k₀ s R → Passed n.log s R)
    (hresumed : Resumed n n' k₀ task stage settled) : AnsweredPassed n' := by
  obtain ⟨os, hlog, hos⟩ := hresumed.log
  have hneutral : ∀ o ∈ os, RoomNeutral o := by
    intro o ho
    rcases hos o ho with rfl | ⟨send, -, rfl⟩ <;> trivial
  intro k s R hentered hanswered
  rw [hlog, enteredBy_append hneutral] at hentered
  by_cases hawaits : n.AwaitsCheck k
  · -- The check of handler `k` is answered by this turn, so the turn is its own.
    obtain ⟨R', lastSeenSeq, hstage⟩ := hawaits
    obtain rfl : k = k₀ := by
      by_contra hk
      refine hanswered ⟨R', lastSeenSeq, ?_⟩
      rw [hresumed.turned.tasks, List.getElem?_set_ne (Ne.symm hk),
        (observeCheck_frame n k₀ stage settled).1.tasks, hstage]
    obtain ⟨promise, hstate, hsettled⟩ := hresumed.awaiting
    obtain rfl : stage = .joinMember R' lastSeenSeq := by
      rw [hresumed.get, Option.bind_some, stage?_eq hstate] at hstage
      exact Option.some.inj hstage
    by_cases hfailed : ∀ result, settled = .resolved result → result.rowCount = 0
    · -- It has failed: only with another request of the socket that has passed.
      rw [hlog]
      exact (hrefused s R ⟨task, R', lastSeenSeq, promise, settled, hresumed.get, hstate,
        hsettled, hfailed⟩ hentered).append hneutral
    · -- It has found a membership, and the turn observes that.
      push Not at hfailed
      obtain ⟨result, rfl, hrow⟩ := hfailed
      obtain ⟨os', hlog', -⟩ := hresumed.turned.log
      refine ⟨k, hlog ▸ (enteredBy_append hneutral).mpr hentered, ?_⟩
      rw [hlog', observeCheck, if_neg hrow]
      exact List.mem_append_left _ (List.mem_append_right _ List.mem_cons_self)
  · rw [hlog]
    exact (h k s R hentered hawaits).append hneutral

/-- A cleanup. -/
theorem AnsweredPassed.cleaned (h : AnsweredPassed n) (hcleaned : Cleaned n n' s) :
    AnsweredPassed n' := by
  obtain ⟨os, hlog, hos⟩ := hcleaned.log
  have hneutral : ∀ o ∈ os, RoomNeutral o := fun o ho ↦ hos o ho ▸ trivial
  intro k s' R hentered hanswered
  rw [awaitsCheck_congr (congrArg (List.map Task.key) hcleaned.same.1)] at hanswered
  rw [hlog] at hentered ⊢
  rcases since_concat.mp hentered with heq | ⟨hentered, htaken⟩
  · cases heq
  · rw [← EnteredBy, enteredBy_append hneutral] at hentered
    exact ((h k s' R hentered hanswered).append hneutral).concat htaken

/-- **Step lemma.** -/
theorem AnsweredPassed.step (h : AnsweredPassed n) {e : Event} (hchecked : JoinsChecked n e)
    (hstep : n.step e = some n') : AnsweredPassed n' := by
  have hquiet : ∀ {S : RoomId → Prop}, Quiet S n n' → AnsweredPassed n' := by
    intro S hquiet
    obtain ⟨os, hlog, hos⟩ := hquiet.log
    exact h.of_neutral hquiet.handlers hlog fun o ho ↦ roomNeutral_of_output (hos o ho)
  cases stepped_of_step hstep with
  | connected => exact h
  | received s frame socket _ _ hreceived => exact h.receive socket.userId_ne_nil hreceived
  | resumed k task stage settled _ hresumed =>
    exact h.resume (fun s R ↦ hchecked.refused k s R rfl) hresumed
  | marked _ s _ _ hmarked => exact hquiet hmarked.quiet
  | cleaned _ s _ _ _ hcleaned => exact h.cleaned hcleaned
  | quiet _ _ _ hq => exact hquiet hq

/-! ## Confidentiality -/

theorem authorized_append {os : List Observation} (hos : ∀ o ∈ os, RoomNeutral o)
    (h : Authorized log s R) : Authorized (log ++ os) s R := by
  obtain ⟨k, hsince, hpassed⟩ := h
  refine ⟨k, (since_append_of_neutral fun o ho ↦ ⟨?_, ?_⟩).mpr hsince,
    List.mem_append_left _ hpassed⟩
  · rintro rfl
    exact hos _ ho
  · rintro ⟨k', rfl⟩
    exact hos _ ho

/-- A step that selects nobody. -/
theorem Confidential.append (h : Confidential log) {os : List Observation}
    (hos : ∀ o ∈ os, ∀ R frame recipients, o ≠ .selected R frame recipients) :
    Confidential (log ++ os) := by
  refine each_append h fun pre o post hpost R frame recipients heq ↦ absurd heq ?_
  exact hos o (hpost ▸ List.mem_append_right _ List.mem_cons_self) R frame recipients

/-- A step that selects from the sockets of rooms. Each has a request that has been answered, hence
one that has passed. -/
theorem Confidential.quiet (h : Confidential n.log) (hlogged : RoomsLogged n)
    (hpassed : AnsweredPassed n) {e : Event} (hchecked : JoinsChecked n e)
    (hquiet : Quiet (n.BroadcastsTo e) n n') : Confidential n'.log := by
  obtain ⟨os, hlog, hos⟩ := hquiet.log
  rw [hlog]
  refine each_append h fun pre o post hpost R frame recipients heq s hs ↦ ?_
  obtain ⟨hbroadcast, hrecipients⟩ : n.BroadcastsTo e R ∧ recipients = n.openSockets R := by
    have ho := hos o (hpost ▸ List.mem_append_right _ List.mem_cons_self)
    rw [heq] at ho
    exact ho
  rw [hrecipients, openSockets, List.mem_filter] at hs
  obtain ⟨k, hentered, hanswered⟩ := hchecked.answered R s hbroadcast hs.2 ((hlogged s R).mp hs.1)
  refine authorized_append (fun o' ho' ↦ ?_) (hpassed k s R hentered hanswered).authorized
  exact roomNeutral_of_output (hos o' (hpost ▸ List.mem_append_left _ ho'))

/-- **Step lemma.** -/
theorem Confidential.step (h : Confidential n.log) (hlogged : RoomsLogged n)
    (hpassed : AnsweredPassed n) {e : Event} (hchecked : JoinsChecked n e)
    (hstep : n.step e = some n') : Confidential n'.log := by
  cases stepped_of_step hstep with
  | connected => exact h
  | received s frame socket _ _ hreceived =>
    obtain ⟨os, hlog, hos⟩ := hreceived.log_cases
    rw [hlog]
    refine h.append fun o ho R frame' recipients heq ↦ ?_
    rcases hos o ho with ⟨payload, -, heq'⟩ | ⟨payload, -, heq'⟩ | ⟨error, -, heq'⟩ <;>
      cases heq'.symm.trans heq
  | resumed k task stage settled _ hresumed =>
    obtain ⟨os, hlog, hos⟩ := hresumed.log
    rw [hlog]
    refine h.append fun o ho R frame recipients heq ↦ ?_
    rcases hos o ho with heq' | ⟨send, -, heq'⟩ <;> cases heq'.symm.trans heq
  | marked _ s _ _ hmarked =>
    rw [hmarked.log]
    exact h
  | cleaned _ s _ _ _ hcleaned =>
    obtain ⟨os, hlog, hos⟩ := hcleaned.log_cases
    rw [hlog]
    refine h.append fun o ho R frame recipients heq ↦ ?_
    rcases hos o ho with heq' | heq' <;> cases heq'.symm.trans heq
  | quiet _ _ _ hquiet => exact h.quiet hlogged hpassed hchecked hquiet

/-- In every run in which a `join_room` is refused only while its socket is not in the room by it,
or is there by another one that has passed, and in which a broadcast finds an answered `join_room`
for each socket it can reach, the recipients of every broadcast are authorized. -/
theorem recipients_authorized {nodeId : JsString} {es : List Event}
    (hrun : run step (start nodeId) es = some n)
    (hchecked : Guarded step JoinsChecked (start nodeId) es) : Confidential n.log := by
  refine (guarded_invariant (fun n ↦ RoomsLogged n ∧ AnsweredPassed n ∧ Confidential n.log) ?_
    ⟨roomsLogged_start nodeId, answeredPassed_start nodeId, each_nil⟩ hchecked hrun).2.2
  exact fun hinv he hstep ↦
    ⟨hinv.1.step hstep, hinv.2.1.step he hstep, hinv.2.2.step hinv.1 hinv.2.1 he hstep⟩

/-- A step that answers no check and broadcasts nothing. -/
theorem joinsChecked_of_unrelated {e : Event} (hresume : ∀ k, e ≠ .resume k)
    (hbroadcast : ∀ R, ¬ n.BroadcastsTo e R) : JoinsChecked n e :=
  ⟨fun k _ _ he ↦ absurd he (hresume k), fun R _ h ↦ absurd h (hbroadcast R)⟩

/-- A member and another user ask to join. The member passes; the other user leaves, and is refused
after that. When the member's typing is broadcast, only the member is selected. -/
theorem recipients_authorized_member :
    ∃ n, run step (start []) ([.db (.createUser [0x61] [0x61]), .db (.createRoom .nil),
        .db (.query (.insertMember Uuid.nil.text [0x61])), .connect [0x61], .connect [0x62],
        .frame 0 (.joinRoom ⟨⟨Uuid.nil.text, by decide⟩, none, by decide⟩),
        .frame 1 (.joinRoom ⟨⟨Uuid.nil.text, by decide⟩, none, by decide⟩),
        .runQuery 0 .answered] ++ [.resume 0] ++
        [.frame 1 (.leaveRoom ⟨Uuid.nil.text, by decide⟩), .runQuery 1 .answered] ++ [.resume 1] ++
        [.db (.query (.upsertTyping [0x61] Uuid.nil.text))] ++ [.deliver 0]) = some n ∧
      .replied 1 1 notAMember ∈ n.log ∧
      .selected Uuid.nil.text (.typing ⟨[0x61], .nil, 0⟩) [0] ∈ n.log ∧ Confidential n.log := by
  refine exists_run_of_any (fun n : Node ↦ .replied 1 1 notAMember ∈ n.log ∧
    .selected Uuid.nil.text (.typing ⟨[0x61], .nil, 0⟩) [0] ∈ n.log) (by decide) ?_
  have hunrelated : ∀ {m : Node} {es : List Event},
      (∀ e ∈ es, (∀ k, e ≠ .resume k) ∧ ∀ m R, ¬ BroadcastsTo m e R) →
        Guarded step JoinsChecked m es := fun h ↦
    (guarded_of_forall _ h _).mono fun m e he ↦ joinsChecked_of_unrelated he.1 (he.2 m)
  refine fun n hrun hlog ↦ ⟨hlog.1, hlog.2, recipients_authorized hrun ?_⟩
  -- Three steps matter: the two answers, and the broadcast at the end.
  refine guarded_append.mpr ⟨guarded_append.mpr ⟨guarded_append.mpr ⟨guarded_append.mpr
    ⟨guarded_append.mpr ⟨hunrelated (by simp [BroadcastsTo]), fun m hm ↦ ⟨⟨?_, ?_⟩, ?_⟩⟩,
      fun m _ ↦ hunrelated (by simp [BroadcastsTo])⟩, fun m hm ↦ ⟨⟨?_, ?_⟩, ?_⟩⟩,
      fun m _ ↦ hunrelated (by simp [BroadcastsTo])⟩, fun m hm ↦ ⟨⟨?_, ?_⟩, ?_⟩⟩
  · have hpassed := of_run_eq_some (fun m : Node ↦ m.tasks[0]? = some ⟨0, [0x61],
      .awaiting (.joinMember Uuid.nil.text none) (.settled (.resolved (.rows 1)))⟩) hm (by decide)
    rintro k s R ⟨⟩ ⟨task, R', lastSeenSeq, promise, settled, hget, hstate, hsettled, hfailed⟩ -
    cases hpassed.symm.trans hget
    cases hstate
    cases hsettled
    exact absurd (hfailed _ rfl) (by decide)
  · rintro _ _ ⟨⟩
  · exact fun _ _ ↦ trivial
  · -- The other user has left before the answer.
    have hlog := of_run_eq_some (fun m : Node ↦ m.log = [.joinReceived 0 0 Uuid.nil.text,
      .joinReceived 1 1 Uuid.nil.text, .checkPassed 0, .leaveReceived 2 1 Uuid.nil.text]) hm
      (by decide)
    rintro k s R ⟨⟩ - hentered
    rw [hlog] at hentered
    obtain ⟨_, hmem, rfl⟩ := hentered.exists_mem
    obtain ⟨rfl, rfl⟩ : s = 1 ∧ R = Uuid.nil.text := by simpa using hmem
    exact absurd hentered (by decide)
  · rintro _ _ ⟨⟩
  · exact fun _ _ ↦ trivial
  · rintro _ _ _ ⟨⟩
  · -- The member's check has been answered, and nobody else is in the room.
    have hlog := of_run_eq_some (fun m : Node ↦ m.log = [.joinReceived 0 0 Uuid.nil.text,
      .joinReceived 1 1 Uuid.nil.text, .checkPassed 0, .leaveReceived 2 1 Uuid.nil.text,
      .replied 1 1 notAMember, .notified 0 (.typing ⟨[0x61], .nil, 0⟩)]) hm (by decide)
    have hstage := of_run_eq_some (fun m : Node ↦ m.tasks[0]?.bind Task.stage? =
      some (.joinSubscribe Uuid.nil.text none)) hm (by decide)
    rintro R s - - hrequested
    obtain ⟨k, hentered⟩ := requested_iff_exists_enteredBy.mp hrequested
    refine ⟨k, hentered, ?_⟩
    rw [hlog] at hentered
    obtain ⟨_, hmem, rfl⟩ := hentered.exists_mem
    obtain ⟨rfl, rfl, rfl⟩ | ⟨rfl, rfl, rfl⟩ :
      k = 0 ∧ s = 0 ∧ R = Uuid.nil.text ∨ k = 1 ∧ s = 1 ∧ R = Uuid.nil.text := by simpa using hmem
    · rintro ⟨R', lastSeenSeq, hstage'⟩
      cases hstage.symm.trans hstage'
    · exact absurd hentered (by decide)
  · exact fun _ _ ↦ trivial

/-- A user who is no member of the room sends `join_room`, is refused, and is selected all the same
when another user starts typing. -/
theorem refused_socket_selected :
    ∃ n, run step (start []) [.db (.createUser [0x61] [0x61]), .db (.createRoom .nil),
        .connect [0x62], .frame 0 (.joinRoom ⟨⟨Uuid.nil.text, by decide⟩, none, by decide⟩),
        .runQuery 0 .answered, .resume 0, .db (.query (.upsertTyping [0x61] Uuid.nil.text)),
        .deliver 0] = some n ∧
      .replied 0 0 notAMember ∈ n.log ∧ ¬ Confidential n.log := by
  refine exists_run_of_any (fun n : Node ↦ n.log = [.joinReceived 0 0 Uuid.nil.text,
    .replied 0 0 notAMember, .notified 0 (.typing ⟨[0x61], .nil, 0⟩),
    .selected Uuid.nil.text (.typing ⟨[0x61], .nil, 0⟩) [0]]) (by decide) ?_
  intro n _ hlog
  rw [hlog]
  refine ⟨by decide, fun h ↦ ?_⟩
  obtain ⟨k, -, hmem⟩ := h [.joinReceived 0 0 Uuid.nil.text, .replied 0 0 notAMember,
    .notified 0 (.typing ⟨[0x61], .nil, 0⟩)] _ [] rfl _ _ _ rfl 0 List.mem_cons_self
  simp at hmem

end Node

end PostgresChat
