import PostgresChat.Lib.Owed
import PostgresChat.Node.Frames

/-!
# What a user has in a room

The handlers of `join_room`, `leave_room`, `typing_start` and `typing_stop` work on four things: the
user's row of `presence`, the user's row of `typing`, the reference count of the room, and the place
of the socket in `roomSockets`. A `Standing` holds these four, the times in the rows left out. A
frame changes the last of them at once, and the count when it takes the last socket out of the room;
all else its handler does later, one `RoomEffect` after another. What a handler has still to do can
be read off its state (`TaskState.owes`).

Effects commute unless one undoes the other. Subscribing and unsubscribing commute as well, as long
as the count does not meet its floor at zero.
-/

namespace PostgresChat

/-! ## Effects -/

/-- What a handler does to the standing of its user in a room: the four statements that write rows,
and the two calls of the LISTEN connection. -/
inductive RoomEffect where
  | enter
  | leave
  | start
  | stop
  | subscribe
  | unsubscribe
  deriving DecidableEq

namespace RoomEffect

/-- The effect that undoes an effect. -/
def opposite : RoomEffect → RoomEffect
  | .enter => .leave
  | .leave => .enter
  | .start => .stop
  | .stop => .start
  | .subscribe => .unsubscribe
  | .unsubscribe => .subscribe

/-- An effect may come before those owed by earlier handlers: none of them undoes it, or the count
of the room is too high for the floor at zero to be felt. -/
def InTurn (owed : List RoomEffect) (count : ℕ) : RoomEffect → Prop
  | .subscribe => owed.count .unsubscribe ≤ count
  | .unsubscribe => .subscribe ∉ owed ∨ owed.count .unsubscribe < count
  | .enter => .leave ∉ owed
  | .leave => .enter ∉ owed
  | .start => .stop ∉ owed
  | .stop => .start ∉ owed

instance (owed : List RoomEffect) (count : ℕ) (x : RoomEffect) : Decidable (x.InTurn owed count) :=
  match x with
  | .subscribe => inferInstanceAs (Decidable (_ ≤ _))
  | .unsubscribe => inferInstanceAs (Decidable (_ ∨ _))
  | .enter | .leave | .start | .stop => inferInstanceAs (Decidable (¬ _))

theorem inTurn_nil (count : ℕ) (x : RoomEffect) : x.InTurn [] count := by
  cases x with
  | subscribe => exact Nat.zero_le count
  | unsubscribe => exact Or.inl List.not_mem_nil
  | _ => exact List.not_mem_nil

end RoomEffect

/-! ## Standings -/

/-- The `node_id` of the user's row of `presence`, whether the user has a row of `typing`, the count
of the room, and whether the socket is in `roomSockets`. -/
structure Standing where
  presence : Option JsString
  typing : Bool
  count : ℕ
  joined : Bool
  deriving DecidableEq

namespace Standing

variable {nodeId : JsString} {st : Standing} {x y : RoomEffect} {owed : List RoomEffect}

def apply (nodeId : JsString) (st : Standing) : RoomEffect → Standing
  | .enter => { st with presence := some nodeId }
  | .leave => { st with presence := none }
  | .start => { st with typing := true }
  | .stop => { st with typing := false }
  | .subscribe => { st with count := st.count + 1 }
  | .unsubscribe => { st with count := st.count - 1 }

theorem apply_comm (h : y ≠ x.opposite) (st : Standing) :
    (st.apply nodeId x).apply nodeId y = (st.apply nodeId y).apply nodeId x := by
  cases x <;> cases y <;> first | rfl | exact absurd rfl h

/-- To unsubscribe undoes a subscription. -/
theorem unsubscribe_subscribe (st : Standing) :
    (st.apply nodeId .subscribe).apply nodeId .unsubscribe = st := rfl

/-- To subscribe undoes what has been taken off the count, if anything has. -/
theorem subscribe_unsubscribe (h : 0 < st.count) :
    (st.apply nodeId .unsubscribe).apply nodeId .subscribe = st := by
  obtain ⟨presence, typing, count, joined⟩ := st
  change Standing.mk presence typing (count - 1 + 1) joined = _
  rw [Nat.sub_add_cancel h]

theorem commutes_of_opposite_notMem (h : x.opposite ∉ owed) (st : Standing) :
    Owed.Commutes (apply nodeId) owed st x :=
  Owed.commutes_of_forall (fun _ hy ↦ apply_comm (ne_of_mem_of_not_mem hy h)) st

/-- Subscribing commutes with all that does not take the count down to zero. -/
theorem commutes_subscribe (h : owed.count .unsubscribe ≤ st.count) :
    Owed.Commutes (apply nodeId) owed st .subscribe := by
  induction owed generalizing st with
  | nil => exact Owed.commutes_nil st _
  | cons y owed ih =>
    rw [List.count_cons] at h
    by_cases hy : y = .unsubscribe
    · subst hy
      rw [beq_self_eq_true, if_pos rfl] at h
      have hpos : 0 < st.count := by omega
      refine Owed.commutes_cons ?_ (ih (Nat.le_sub_of_add_le h))
      rw [unsubscribe_subscribe, subscribe_unsubscribe hpos]
    · refine Owed.commutes_cons (apply_comm hy st) (ih ?_)
      rw [beq_false_of_ne hy, if_neg Bool.false_ne_true, Nat.add_zero] at h
      refine h.trans ?_
      cases y with
      | unsubscribe => exact absurd rfl hy
      | subscribe => exact Nat.le_succ _
      | _ => exact Nat.le_refl _

/-- So does unsubscribing, when the count is one higher. -/
theorem commutes_unsubscribe (h : owed.count .unsubscribe < st.count) :
    Owed.Commutes (apply nodeId) owed st .unsubscribe := by
  -- The state is one in which the room has been subscribed to, and that commutes.
  have hst : (st.apply nodeId .unsubscribe).apply nodeId .subscribe = st :=
    subscribe_unsubscribe (Nat.zero_lt_of_lt h)
  have hcomm : Owed.Commutes (apply nodeId) owed (st.apply nodeId .unsubscribe) .subscribe :=
    commutes_subscribe (Nat.le_sub_one_of_lt h)
  rw [Owed.Commutes, hst] at hcomm
  rw [Owed.Commutes, hcomm, unsubscribe_subscribe]

theorem commutes_of_inTurn (h : x.InTurn owed st.count) :
    Owed.Commutes (apply nodeId) owed st x := by
  cases x with
  | subscribe => exact commutes_subscribe h
  | unsubscribe => exact h.elim (fun h ↦ commutes_of_opposite_notMem h st) commutes_unsubscribe
  | enter => exact commutes_of_opposite_notMem (x := .enter) h st
  | leave => exact commutes_of_opposite_notMem (x := .leave) h st
  | start => exact commutes_of_opposite_notMem (x := .start) h st
  | stop => exact commutes_of_opposite_notMem (x := .stop) h st

/-- A handler that unsubscribes twice may do so early the first time, even before a subscription,
because the floor at zero is met at most once. -/
theorem foldl_unsubscribe_twice (nodeId : JsString)
    (h : owed.count .subscribe ≤ 1 ∨ owed.count .unsubscribe < st.count) :
    (owed.foldl (apply nodeId) (st.apply nodeId .unsubscribe)).apply nodeId .unsubscribe =
      ((owed.foldl (apply nodeId) st).apply nodeId .unsubscribe).apply nodeId .unsubscribe := by
  rcases h with h | h
  · induction owed generalizing st with
    | nil => rfl
    | cons y owed ih =>
      rw [List.count_cons] at h
      rw [List.foldl_cons, List.foldl_cons]
      by_cases hy : y = .subscribe
      · subst hy
        have hnone : RoomEffect.subscribe ∉ owed := by
          rw [beq_self_eq_true, if_pos rfl] at h
          exact List.count_eq_zero.mp (by omega)
        have hcomm : ∀ st, Owed.Commutes (apply nodeId) owed st .unsubscribe :=
          commutes_of_opposite_notMem hnone
        rw [← hcomm, ← hcomm, unsubscribe_subscribe, unsubscribe_subscribe, hcomm]
      · rw [apply_comm hy]
        exact ih (by rwa [beq_false_of_ne hy, if_neg Bool.false_ne_true, Nat.add_zero] at h)
  · rw [commutes_unsubscribe h]

end Standing

/-! ## Handlers -/

/-- What the statement awaited at a stage does. -/
def Stage.writes : Stage → Option RoomEffect
  | .joinPresence _ => some .enter
  | .leavePresence _ => some .leave
  | .typingStartUpsert _ => some .start
  | .typingStopDelete _ => some .stop
  | .joinMember .. | .joinSubscribe .. | .joinHistory .. | .leaveUnsubscribe _ | .sendMember ..
  | .sendInsert .. | .typingStartMember _ => none

/-- What the handler of a member does after the promise awaited at a stage. -/
def Stage.later : Stage → List RoomEffect
  | .joinMember .. => [.subscribe, .enter]
  | .joinSubscribe .. | .joinHistory .. => [.enter]
  | .leavePresence _ => [.unsubscribe]
  | .typingStartMember _ => [.start]
  | .joinPresence _ | .leaveUnsubscribe _ | .sendMember .. | .sendInsert .. | .typingStartUpsert _
  | .typingStopDelete _ => []

/-- What a turn does at its end. -/
def Next.calls : Next → Option RoomEffect
  | .await (.joinSubscribe ..) => some .subscribe
  | .await (.leaveUnsubscribe _) => some .unsubscribe
  | _ => none

/-- What the statement awaited by a handler does, while it has not run. -/
def TaskState.pending : TaskState → Option RoomEffect
  | .awaiting stage .query => stage.writes
  | _ => none

/-- What a handler has still to do. -/
def TaskState.owes : TaskState → List RoomEffect
  | .awaiting stage .query => stage.writes.toList ++ stage.later
  | .awaiting stage _ => stage.later
  | .ended => []

namespace Standing

variable {nodeId : JsString} {st : Standing} {owed : List RoomEffect} {userId : UserId}

def setJoined (st : Standing) (joined : Bool) : Standing := { st with joined := joined }

/-- What a frame changes at once, in a room where the socket is `alone` or not. -/
def receive (alone : Bool) (st : Standing) : ClientFrame → Standing
  | .joinRoom _ => st.setJoined true
  | .leaveRoom _ =>
    (if st.joined && alone then { st with count := st.count - 1 } else st).setJoined false
  | _ => st

/-- What handling a frame changes, from its arrival to the end of its handler. -/
def handle (nodeId : JsString) (alone : Bool) (userId : UserId) (st : Standing)
    (frame : ClientFrame) : Standing :=
  (Node.firstState userId frame).owes.foldl (apply nodeId) (st.receive alone frame)

/-- No effect has to do with the place of the socket. -/
theorem foldl_setJoined (owed : List RoomEffect) (st : Standing) (joined : Bool) :
    owed.foldl (apply nodeId) (st.setJoined joined) =
      (owed.foldl (apply nodeId) st).setJoined joined := by
  induction owed generalizing st with
  | nil => rfl
  | cons y owed ih =>
    rw [List.foldl_cons, List.foldl_cons, ← ih]
    cases y <;> rfl

theorem joined_foldl (owed : List RoomEffect) (st : Standing) :
    (owed.foldl (apply nodeId) st).joined = st.joined := by
  have h : (owed.foldl (apply nodeId) (st.setJoined st.joined)).joined = st.joined := by
    rw [foldl_setJoined]
    rfl
  exact h

theorem owes_leaveRoom (hu : userId ≠ []) (payload : RoomPayload) :
    (Node.firstState userId (.leaveRoom payload)).owes = [.leave, .unsubscribe] := by
  simp only [Node.firstState, handleFrame, hu, if_false]
  rfl

/-- A frame may be received before what is owed by earlier handlers has been done. -/
theorem foldl_receive (hu : userId ≠ []) (alone : Bool) (frame : ClientFrame)
    (h : ∀ payload, frame = .leaveRoom payload → (st.joined && alone) = true →
      owed.count .subscribe ≤ 1 ∨ owed.count .unsubscribe < st.count) :
    (Node.firstState userId frame).owes.foldl (apply nodeId)
        (owed.foldl (apply nodeId) (st.receive alone frame)) =
      (owed.foldl (apply nodeId) st).handle nodeId alone userId frame := by
  cases frame with
  | joinRoom payload =>
    rw [handle, receive, receive, foldl_setJoined]
  | leaveRoom payload =>
    rw [handle, owes_leaveRoom hu, receive, receive, foldl_setJoined, joined_foldl]
    cases hlast : st.joined && alone with
    | false => rfl
    | true =>
      have htwice := foldl_unsubscribe_twice nodeId (h payload rfl hlast)
      exact congrArg (fun st : Standing ↦ (st.apply nodeId .leave).setJoined false) htwice
  | _ => rfl

end Standing

end PostgresChat
