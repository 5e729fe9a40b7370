import PostgresChat.Node.Calm
import PostgresChat.Node.Recipients

/-!
# Rooms that are listened on

A socket holds a room from the moment its join has passed the check: first because the join is under
way (`InFlight`), then because the socket was told that it has joined (`Acked`), until it leaves or
is no longer open. The node must listen on the channel of every room that some socket holds.

It does as long as the count of such a room stays above zero. Nothing in the code sees to that: a
`leave_room` takes one off the count whether or not its socket has joined, and one more if it leaves
the room without sockets. `CountsHeld` is the condition under which a last count is taken off only
when nobody holds the room any longer.
-/

namespace PostgresChat

open Execution PastTrace

namespace Node

variable {n n' : Node} {s s' : SocketId} {R : RoomId} {log : List Observation}

/-! ## Who holds a room -/

/-- The socket is told that it has joined the room. -/
def Acks (s : SocketId) (R : RoomId) (o : Observation) : Prop :=
  ∃ k, o = .replied k s (.joinedRoom R)

instance (s : SocketId) (R : RoomId) : DecidablePred (Acks s R)
  | .replied k s' frame =>
    decidable_of_iff (s' = s ∧ frame = .joinedRoom R)
      ⟨fun h ↦ ⟨k, by rw [h.1, h.2]⟩, fun ⟨_, h⟩ ↦ by cases h; exact ⟨rfl, rfl⟩⟩
  | .joinReceived .. | .leaveReceived .. | .checkPassed _ | .selected .. | .delivered ..
  | .cleaned _ | .closed _ | .notified .. | .executed .. => isFalse nofun

/-- The socket was told that it has joined the room, and has not left since. -/
def Acked (log : List Observation) (s : SocketId) (R : RoomId) : Prop :=
  Since (Acks s R) (Left s R) log

instance (log : List Observation) (s : SocketId) (R : RoomId) : Decidable (Acked log s R) :=
  inferInstanceAs (Decidable (Since _ _ log))

/-- A join of the socket has passed its check and is under way. -/
def InFlight (n : Node) (s : SocketId) (R : RoomId) : Prop :=
  ∃ key ∈ n.tasks.map Task.key, key.1 = s ∧ key.2.bind Stage.joining = some R

instance (n : Node) (s : SocketId) (R : RoomId) : Decidable (InFlight n s R) :=
  inferInstanceAs (Decidable (∃ key ∈ _, _ ∧ _))

/-- The socket is open, and has joined the room or is about to. -/
def Holds (n : Node) (s : SocketId) (R : RoomId) : Prop :=
  n.isOpen s = true ∧ (Acked n.log s R ∨ InFlight n s R)

instance (n : Node) (s : SocketId) (R : RoomId) : Decidable (Holds n s R) :=
  inferInstanceAs (Decidable (_ ∧ _))

/-- Every socket that holds the room is one of `S`. -/
def HeldBy (n : Node) (R : RoomId) (S : SocketId → Prop) : Prop :=
  ∀ s < n.sockets.length, Holds n s R → S s

instance (n : Node) (R : RoomId) (S : SocketId → Prop) [DecidablePred S] :
    Decidable (HeldBy n R S) :=
  inferInstanceAs (Decidable (∀ s < n.sockets.length, Holds n s R → S s))

/-- When a step takes the last count off a room, no socket holds the room after it. -/
def CountsHeld (n : Node) (e : Event) : Prop :=
  -- A `leave_room` of the last socket of the room.
  (∀ l ∈ e.leaves, n.empties l.2 l.1 → n.pg.roomCount l.2 = 1 →
    HeldBy n l.2 fun s ↦ s = l.1 ∧ ¬ InFlight n s l.2) ∧
  -- The last socket of the room closes.
  (∀ s ∈ n.cleansUp e, ∀ R ∈ n.roomSockets.keys, s ∈ n.socketsOf R → n.empties R s →
    n.pg.roomCount R = 1 → HeldBy n R fun s' ↦ s' = s) ∧
  -- The handler of a `leave_room` unsubscribes.
  ∀ R ∈ n.unsubscribes e, n.pg.roomCount R = 1 → HeldBy n R fun _ ↦ False

instance (n : Node) (e : Event) : Decidable (CountsHeld n e) :=
  inferInstanceAs (Decidable (_ ∧ _ ∧ _))

/-- The rooms that are held are counted. -/
def Held (n : Node) : Prop := ∀ s R, Holds n s R → n.pg.roomCount R ≠ 0

/-- Handlers and frames belong to sockets there are. -/
structure Bounded (n : Node) : Prop where
  tasks : ∀ key ∈ n.tasks.map Task.key, key.1 < n.sockets.length
  replied : ∀ k s frame, .replied k s frame ∈ n.log → s < n.sockets.length

theorem lt_length_of_isOpen (h : n.isOpen s = true) : s < n.sockets.length := by
  obtain ⟨socket, hget, -⟩ := Option.map_eq_some_iff.mp (of_decide_eq_true h)
  exact (List.getElem?_eq_some_iff.mp hget).1

theorem HeldBy.of_holds {S : SocketId → Prop} (h : HeldBy n R S) (hs : Holds n s R) : S s :=
  h s (lt_length_of_isOpen hs.1) hs

/-! ## Handlers and frames -/

theorem Bounded.lt_length (h : Bounded n) (hs : Acked n.log s R ∨ InFlight n s R) :
    s < n.sockets.length := by
  rcases hs with hacked | ⟨key, hkey, rfl, -⟩
  · obtain ⟨_, hmem, k, rfl⟩ := hacked.exists_mem
    exact h.replied k s _ hmem
  · exact h.tasks key hkey

theorem Bounded.of_eq (h : Bounded n) (hlength : n.sockets.length ≤ n'.sockets.length)
    (htasks : ∀ key ∈ n'.tasks.map Task.key, key ∈ n.tasks.map Task.key ∨
      key.1 < n'.sockets.length) {os : List Observation} (hlog : n'.log = n.log ++ os)
    (hos : ∀ k s frame, .replied k s frame ∈ os → s < n'.sockets.length) : Bounded n' := by
  refine ⟨fun key hkey ↦ ?_, fun k s frame hmem ↦ ?_⟩
  · exact (htasks key hkey).elim (fun hold ↦ Nat.lt_of_lt_of_le (h.tasks key hold) hlength)
      fun hlt ↦ hlt
  · rw [hlog, List.mem_append] at hmem
    exact hmem.elim (fun hold ↦ Nat.lt_of_lt_of_le (h.replied k s frame hold) hlength)
      (hos k s frame)

/-- **Step lemma.** -/
theorem Bounded.step (h : Bounded n) {e : Event} (hstep : n.step e = some n') : Bounded n' := by
  rcases handler_cases hstep with hidle | ⟨s, frame, socket, -, hget, hreceived⟩ |
    ⟨k, task, stage, settled, -, hresumed⟩
  · obtain ⟨os, hlog, hos⟩ := hidle.log
    refine h.of_eq hidle.sockets (fun key hkey ↦ Or.inl (hidle.settles.handlers ▸ hkey)) hlog ?_
    intro k s frame hmem
    cases hos _ hmem
  · have hlt : s < n'.sockets.length := by
      rw [hreceived.sockets]
      exact (List.getElem?_eq_some_iff.mp hget).1
    obtain ⟨os, hlog, hos⟩ := hreceived.log_cases
    refine h.of_eq (Nat.le_of_eq (by rw [hreceived.sockets])) (fun key hkey ↦ ?_) hlog
      fun k s' frame' hmem ↦ ?_
    · rw [hreceived.tasks, List.map_append, List.mem_append] at hkey
      refine hkey.imp_right fun hnew ↦ ?_
      rw [List.mem_singleton.mp hnew]
      exact hlt
    · rcases hos _ hmem with ⟨payload, -, heq⟩ | ⟨payload, -, heq⟩ | ⟨error, -, heq⟩ <;> cases heq
      exact hlt
  · obtain ⟨hsame, -⟩ := observeCheck_frame n k stage settled
    have hsockets : n'.sockets = n.sockets := hresumed.turned.sockets.trans hsame.sockets
    have hlt : task.socket < n'.sockets.length := by
      rw [hsockets]
      exact h.tasks task.key (List.mem_map_of_mem (List.mem_of_getElem? hresumed.get))
    obtain ⟨os, hlog, hos⟩ := hresumed.log
    refine h.of_eq (Nat.le_of_eq (by rw [hsockets])) (fun key hkey ↦ ?_) hlog ?_
    · rw [hresumed.turned.tasks, hsame.tasks, List.map_set] at hkey
      refine (List.mem_or_eq_of_mem_set hkey).imp_right ?_
      rintro rfl
      exact hlt
    · intro k' s' frame hmem
      rcases hos _ hmem with heq | ⟨send, -, heq⟩
      · cases heq
      · cases heq
        exact hlt

/-! ## Holding -/

/-- The observations that are not about holding a room. -/
def HoldNeutral : Observation → Prop
  | .replied _ _ (.joinedRoom _) | .leaveReceived .. => False
  | _ => True

theorem acked_append {os : List Observation} (hos : ∀ o ∈ os, HoldNeutral o) :
    Acked (log ++ os) s R ↔ Acked log s R := by
  refine since_append_of_neutral fun o ho ↦ ⟨?_, ?_⟩
  · rintro ⟨k, rfl⟩
    exact hos _ ho
  · rintro ⟨k, rfl⟩
    exact hos _ ho

theorem acked_concat {o : Observation} :
    Acked (log ++ [o]) s R ↔ Acks s R o ∨ Acked log s R ∧ ¬ Left s R o :=
  since_concat

theorem holdNeutral_of_output {S : RoomId → Prop} {o : Observation} (ho : n.Output S o) :
    HoldNeutral o := by
  cases o with
  | replied k s frame => exact ho.elim
  | leaveReceived k s R => exact ho
  | _ => trivial

/-- Nobody comes to hold a room by a step that does not open a socket, let a join pass or tell a
socket that it has joined. -/
theorem Holds.of_neutral (h : Holds n' s R) (hopened : n'.isOpen s = true → n.isOpen s = true)
    (hflight : InFlight n' s R → InFlight n s R) {os : List Observation}
    (hlog : n'.log = n.log ++ os) (hos : ∀ o ∈ os, HoldNeutral o) : Holds n s R := by
  refine ⟨hopened h.1, h.2.imp (fun hacked ↦ ?_) hflight⟩
  rw [hlog, acked_append hos] at hacked
  exact hacked

theorem Holds.of_quiet {S : RoomId → Prop} (h : Holds n' s R) (hquiet : Quiet S n n') :
    Holds n s R := by
  obtain ⟨os, hlog, hos⟩ := hquiet.log
  refine h.of_neutral (hquiet.opened s) ?_ hlog fun o ho ↦ holdNeutral_of_output (hos o ho)
  rw [InFlight, InFlight, hquiet.handlers]
  exact fun hflight ↦ hflight

theorem Holds.of_cleaned (h : Holds n' s' R) (hcleaned : Cleaned n n' s) : Holds n s' R := by
  obtain ⟨os, hlog, hos⟩ := hcleaned.log_cases
  refine h.of_neutral (hcleaned.opened s') ?_ hlog fun o ho ↦ ?_
  · rw [InFlight, InFlight, hcleaned.same.1]
    exact fun hflight ↦ hflight
  · rcases hos o ho with rfl | rfl <;> trivial

/-- A socket that has left a room holds it only if another of its joins is under way. -/
theorem Holds.of_received {userId : UserId} {frame : ClientFrame} (h : Holds n' s' R)
    (hreceived : Received n n' s userId frame) :
    Holds n s' R ∧ ∀ payload, frame = .leaveRoom payload → R = payload.roomId → s' = s →
      InFlight n s' R := by
  obtain ⟨os, hlog, hos⟩ := hreceived.log
  have hneutral : ∀ o ∈ os, HoldNeutral o := by
    intro o ho
    obtain ⟨_, ⟨message, code, rfl⟩, rfl⟩ := hos o ho
    trivial
  have hopened : n'.isOpen s' = true → n.isOpen s' = true := by
    rw [isOpen, isOpen, hreceived.sockets]
    exact fun hopen ↦ hopen
  have hflight : InFlight n' s' R → InFlight n s' R := by
    rintro ⟨key, hkey, hs, hR⟩
    rw [hreceived.tasks, List.map_append, List.mem_append] at hkey
    rcases hkey with hkey | hkey
    · exact ⟨key, hkey, hs, hR⟩
    · rw [List.mem_singleton.mp hkey] at hR
      exact absurd ((joining_firstState s userId frame).symm.trans hR) (by simp)
  rcases updateRooms_cases frame with ⟨payload, rfl⟩ | ⟨payload, rfl⟩ | hother
  · refine ⟨h.of_neutral hopened hflight (hlog.trans (List.append_assoc _ _ _)) fun o ho ↦ ?_,
      by rintro _ ⟨⟩⟩
    rcases List.mem_append.mp ho with ho | ho
    · rw [List.mem_singleton.mp ho]
      trivial
    · exact hneutral o ho
  · have hacked : Acked n'.log s' R → Acked n.log s' R ∧
        ¬ Left s' R (.leaveReceived n.tasks.length s payload.roomId) := by
      intro hacked
      rw [hlog, acked_append hneutral, roomObservation, acked_concat] at hacked
      refine hacked.resolve_left ?_
      rintro ⟨k, heq⟩
      cases heq
    refine ⟨⟨hopened h.1, h.2.imp (fun ha ↦ (hacked ha).1) hflight⟩, ?_⟩
    rintro _ ⟨⟩ rfl rfl
    exact h.2.elim (fun ha ↦ absurd ⟨_, rfl⟩ (hacked ha).2) hflight
  · refine ⟨h.of_neutral hopened hflight ?_ hneutral, ?_⟩
    · rw [hlog, (hother n _ s).2, List.append_nil]
    · rintro payload rfl
      cases (hother n 0 s).2

/-- A handler is in a join past its check after a turn if it was before, or subscribes now. -/
theorem joining_of_resume {stage : Stage} {settled : Settled}
    (h : (stage.resume settled).next.stage?.bind Stage.joining = some R) :
    stage.joining = some R ∨ (stage.resume settled).next.subscribes = some R := by
  rcases resume_cases stage settled with
    ⟨R', lastSeenSeq, -, hnext⟩ | ⟨R', -, hnext⟩ | ⟨hordinary, -⟩
  · rw [hnext] at h ⊢
    exact Or.inr h
  · rw [hnext] at h
    cases h
  · exact Or.inl (hordinary.joining R h)

/-- The last turn of a join is the one that tells its socket so. -/
theorem joinPresence_of_acks {stage : Stage} {settled : Settled} {send : Send}
    (hsend : (stage.resume settled).send = some send) (hframe : send.frame = .joinedRoom R) :
    stage = .joinPresence R ∧ ∃ result, settled = .resolved result := by
  cases settled with
  | rejected => cases hsend
  | resolved result =>
    cases stage with
    | joinPresence R' =>
      cases hsend
      cases hframe
      exact ⟨rfl, result, rfl⟩
    | joinSubscribe R' lastSeenSeq => cases lastSeenSeq <;> cases hsend
    | _ =>
      simp only [Stage.resume, Stage.proceed] at hsend
      try split at hsend
      all_goals cases hsend
      all_goals cases hframe

theorem joining_of_acks {stage : Stage} {settled : Settled} {send : Send}
    (hsend : (stage.resume settled).send = some send) (hframe : send.frame = .joinedRoom R) :
    stage.joining = some R := by
  rw [(joinPresence_of_acks hsend hframe).1]
  rfl

/-- A continuation lets a socket hold a room only if it subscribes to the room. -/
theorem Holds.of_resumed {k : ℕ} {task : Task} {stage : Stage} {settled : Settled}
    (h : Holds n' s R) (hresumed : Resumed n n' k task stage settled) :
    Holds n s R ∨ n.subscribes (.resume k) = some R := by
  obtain ⟨hsame, -, -, os, hlog, hos⟩ := observeCheck_frame n k stage settled
  obtain ⟨os', hlog', hos'⟩ := hresumed.turned.log
  obtain ⟨promise, hstate, -⟩ := hresumed.awaiting
  have hkey : task.key ∈ n.tasks.map Task.key :=
    List.mem_map_of_mem (List.mem_of_getElem? hresumed.get)
  have hopen : n.isOpen s = true := by
    rw [← h.1, isOpen, isOpen, hresumed.turned.sockets.trans hsame.sockets]
  have hflight : task.socket = s → stage.joining = some R → InFlight n s R := fun hs hR ↦
    ⟨task.key, hkey, hs, by rw [key_eq hstate]; exact hR⟩
  rcases h.2 with hacked | ⟨key, hmem, hs, hR⟩
  · refine Or.inl ⟨hopen, ?_⟩
    by_cases hack : ∃ o ∈ os', Acks s R o
    · obtain ⟨o, ho, k', rfl⟩ := hack
      obtain ⟨-, send, hsend, heq⟩ := hos' _ ho
      injection heq with hk hs hframe
      exact Or.inr (hflight hs.symm (joining_of_acks hsend hframe.symm))
    · rw [hlog', hlog, List.append_assoc] at hacked
      refine Or.inl ((since_append_of_neutral fun o ho ↦ ?_).mp hacked)
      rcases List.mem_append.mp ho with ho | ho
      · rw [hos o ho]
        exact ⟨by rintro ⟨_, ⟨⟩⟩, by rintro ⟨_, ⟨⟩⟩⟩
      · obtain ⟨-, send, -, rfl⟩ := hos' o ho
        exact ⟨fun ha ↦ hack ⟨_, ho, ha⟩, by rintro ⟨_, ⟨⟩⟩⟩
  · rw [hresumed.turned.tasks, hsame.tasks, List.map_set] at hmem
    rcases List.mem_or_eq_of_mem_set hmem with hmem | rfl
    · exact Or.inl ⟨hopen, Or.inr ⟨key, hmem, hs, hR⟩⟩
    · rw [Task.key, stage?_afterTurn] at hR
      rcases joining_of_resume hR with hR | hR
      · exact Or.inl ⟨hopen, Or.inr (hflight hs hR)⟩
      · exact Or.inr (by rw [subscribes, upcoming_of_resumed hresumed]; exact hR)

/-! ## Steps -/

/-- One is taken off the count of a room that is held before the step and after it. -/
theorem Held.pred (h : Held n) (hs : Holds n s R) (hlast : n.pg.roomCount R = 1 → False) :
    n.pg.roomCount R - 1 ≠ 0 := by
  have hzero : n.pg.roomCount R ≠ 0 := h s R hs
  have hone : n.pg.roomCount R ≠ 1 := hlast
  omega

/-- **Step lemma.** -/
theorem Held.step (h : Held n) (hbounded : Bounded n) (hpg : n.pg.Undisturbed) {e : Event}
    (he : e.Calm) (herror : e.failing = none) (hheld : CountsHeld n e)
    (hstep : n.step e = some n') : Held n' := by
  cases stepped_of_step hstep with
  | connected =>
    intro s R hholds
    have hlt := hbounded.lt_length hholds.2
    refine h s R ⟨?_, hholds.2⟩
    rw [← hholds.1, isOpen, isOpen, List.getElem?_append_left hlt]
  | received s frame socket _ _ hreceived =>
    intro s' R hholds
    obtain ⟨hbefore, hleft⟩ := hholds.of_received hreceived
    rw [hreceived.pg]
    rcases updateRooms_cases frame with ⟨payload, rfl⟩ | ⟨payload, rfl⟩ | hother
    · exact h s' R hbefore
    · rw [roomCount_updateRooms_leave]
      split
      · rename_i hlast
        obtain ⟨rfl, hempties⟩ := hlast
        refine h.pred hbefore fun hone ↦ ?_
        have hall := (hheld.1 (s, payload.roomId) rfl hempties hone).of_holds hbefore
        exact hall.2 (hleft payload rfl rfl hall.1)
      · exact h s' R hbefore
    · rw [(hother n _ s).1]
      exact h s' R hbefore
  | resumed k task stage settled _ hresumed =>
    intro s R hholds
    rw [roomCount_of_resumed hresumed]
    split
    · exact Nat.succ_ne_zero _
    · rename_i hsubscribes
      have hbefore := (hholds.of_resumed hresumed).resolve_right hsubscribes
      split
      · rename_i hunsubscribes
        exact h.pred hbefore fun hone ↦ (hheld.2.2 R hunsubscribes hone).of_holds hbefore
      · exact h s R hbefore
  | marked _ s _ _ hmarked =>
    intro s' R hholds
    rw [hmarked.pg]
    exact h s' R (hholds.of_quiet hmarked.quiet)
  | cleaned _ s _ _ hcleansUp hcleaned =>
    intro s' R hholds
    have hbefore := hholds.of_cleaned hcleaned
    rw [hcleaned.counts]
    split
    · rename_i hlast
      refine h.pred hbefore fun hone ↦ ?_
      have hkey := mem_keys_of_mem_socketsOf hlast.1
      have hall := hheld.2.1 s hcleansUp R hkey hlast.1 hlast.2 hone
      have hclosed := isOpen_of_cleansUp hcleansUp herror hstep
      rw [← hall.of_holds hbefore, hholds.1] at hclosed
      cases hclosed
    · exact h s' R hbefore
  | quiet _ _ hq hquiet =>
    intro s R hholds
    rw [roomCount_of_quiet_step hpg he hq hstep]
    exact h s R (hholds.of_quiet hquiet)

/-! ## Runs -/

theorem bounded_start (nodeId : JsString) : Bounded (start nodeId) := ⟨nofun, nofun⟩

theorem held_start (nodeId : JsString) : Held (start nodeId) :=
  fun _ _ hholds ↦ absurd ((bounded_start nodeId).lt_length hholds.2) (Nat.not_lt_zero _)

/-- In every run in which no command of the LISTEN connection fails, no socket emits an error and
the counts of held rooms last: once no handler or command is outstanding, the node's connection
listens on the channel of every room that an open socket was told it has joined and has not left
since. -/
theorem joined_covered {nodeId : JsString} {es : List Event}
    (hrun : run step (start nodeId) es = some n)
    (hcalm : Guarded step (fun _ e ↦ e.Calm ∧ e.failing = none) (start nodeId) es)
    (hheld : Guarded step CountsHeld (start nodeId) es) (hrest : n.AtRest)
    (hopen : n.isOpen s = true) (hacked : Acked n.log s R) :
    n.pg.ListensOn (getRoomNotifyChannel R) := by
  obtain ⟨hpg, -, hcounted⟩ := guarded_invariant
    (fun n ↦ n.pg.Undisturbed ∧ Bounded n ∧ Held n)
    (fun hinv he hstep ↦ ⟨undisturbed_step hinv.1 he.1.1 hstep, hinv.2.1.step hstep,
      hinv.2.2.step hinv.2.1 hinv.1 he.1.1 he.1.2 he.2 hstep⟩)
    ⟨PostgresService.undisturbed_ready nodeId, bounded_start nodeId, held_start nodeId⟩
    (hcalm.and hheld) hrun
  exact (hpg.listensOn_iff hrest.queues).mpr (hcounted s R ⟨hopen, Or.inl hacked⟩)

/-- Two sockets join a room, and one of them leaves it. -/
theorem joined_covered_after_leave :
    ∃ n, run step (start []) [.db (.createUser [0x61] [0x61]), .db (.createRoom .nil),
        .db (.query (.insertMember Uuid.nil.text [0x61])), .connect [0x61], .connect [0x61],
        .frame 0 (.joinRoom ⟨⟨Uuid.nil.text, by decide⟩, none, by decide⟩),
        .runQuery 0 .answered, .resume 0, .pg (.execCommand 0 true), .pg (.resumeCall 0), .resume 0,
        .runQuery 0 .answered, .resume 0,
        .frame 1 (.joinRoom ⟨⟨Uuid.nil.text, by decide⟩, none, by decide⟩),
        .runQuery 1 .answered, .resume 1, .resume 1, .runQuery 1 .answered, .resume 1,
        .frame 1 (.leaveRoom ⟨Uuid.nil.text, by decide⟩), .runQuery 2 .answered, .resume 2,
        .resume 2] = some n ∧
      n.pg.ListensOn (getRoomNotifyChannel Uuid.nil.text) := by
  refine exists_run_of_any (fun n : Node ↦ n.AtRest ∧ n.isOpen 0 = true ∧
    Acked n.log 0 Uuid.nil.text) (by decide) ?_
  rintro n hrun ⟨hrest, hopen, hacked⟩
  exact joined_covered hrun (by decide) (by decide) hrest hopen hacked

/-- A socket joins a room, and a socket that has never joined it sends `leave_room`: nothing has
failed and nothing is outstanding, but the node does not listen on the channel any more. -/
theorem stranger_ends_delivery :
    ∃ es n, run step (start []) es = some n ∧
      Guarded step (fun n e ↦ e.Calm ∧ e.failing = none ∧ n.NoRejection e) (start []) es ∧
      n.AtRest ∧ n.isOpen 0 = true ∧ Acked n.log 0 Uuid.nil.text ∧
      ¬ n.pg.ListensOn (getRoomNotifyChannel Uuid.nil.text) := by
  refine ⟨[.db (.createUser [0x61] [0x61]), .db (.createRoom .nil),
    .db (.query (.insertMember Uuid.nil.text [0x61])), .connect [0x61], .connect [0x62],
    .frame 0 (.joinRoom ⟨⟨Uuid.nil.text, by decide⟩, none, by decide⟩),
    .runQuery 0 .answered, .resume 0, .pg (.execCommand 0 true), .pg (.resumeCall 0), .resume 0,
    .runQuery 0 .answered, .resume 0,
    .frame 1 (.leaveRoom ⟨Uuid.nil.text, by decide⟩), .runQuery 1 .answered, .resume 1,
    .pg (.execCommand 0 true), .pg (.resumeCall 1), .resume 1], ?_⟩
  refine exists_run_of_any (fun n : Node ↦ n.AtRest ∧ n.isOpen 0 = true ∧
    Acked n.log 0 Uuid.nil.text ∧ ¬ n.pg.ListensOn (getRoomNotifyChannel Uuid.nil.text))
    (by decide) ?_
  exact fun n _ hlost ↦ ⟨by decide, hlost⟩

end Node

end PostgresChat
