import PostgresChat.Lib.Groups
import PostgresChat.Node.Frames

/-!
# Rooms and sockets

What the four functions of `ChatWsService` that change `roomSockets` do to the sockets of a room and
to its reference count. `addSocketToRoom` counts nothing; the two ways to remove a socket call
`unsubscribeFromRoomChannel` once for each room they leave without sockets (`empties`).
-/

namespace PostgresChat

/-- The socket and the room of a `leave_room`. -/
def Event.leaves : Event → Option (SocketId × RoomId)
  | .frame s (.leaveRoom payload) => some (s, payload.roomId)
  | _ => none

/-- The socket a step is about when it may clean it up. -/
def Event.cleans : Event → Option SocketId
  | .heartbeat s | .socketError s | .socketClose s => some s
  | _ => none

/-- The socket that emits an error. -/
def Event.failing : Event → Option SocketId
  | .socketError s => some s
  | _ => none

/-- The observations about what a handler does. -/
def Observation.ofHandler : Observation → Bool
  | .joinReceived .. | .leaveReceived .. | .checkPassed _ | .replied .. => true
  | .selected .. | .delivered .. | .cleaned _ | .closed _ | .notified .. | .executed .. => false

namespace Node

variable {n : Node} {s s' : SocketId} {R R' : RoomId}

/-- `roomSockets` has an entry for the room, without any other socket than `s`. -/
def empties (n : Node) (R : RoomId) (s : SocketId) : Bool :=
  (n.roomSockets.get R).any fun sockets ↦ (sockets.delete s).size = 0

/-- No socket is in the room. -/
def Vacant (n : Node) (R : RoomId) : Prop := (n.socketsOf R).size = 0

instance (n : Node) (R : RoomId) : Decidable (n.Vacant R) :=
  inferInstanceAs (Decidable ((n.socketsOf R).size = 0))

theorem vacant_iff : n.Vacant R ↔ ∀ s, s ∉ n.socketsOf R := EsSet.size_eq_zero_iff

theorem socketsOf_of_get_eq_some {sockets : EsSet SocketId}
    (h : n.roomSockets.get R = some sockets) : n.socketsOf R = sockets := by
  rw [socketsOf, h, Option.getD_some]

theorem socketsOf_congr {n' : Node} (h : n'.roomSockets.get R = n.roomSockets.get R) :
    n'.socketsOf R = n.socketsOf R := by
  rw [socketsOf, socketsOf, h]

theorem vacant_congr {n' : Node} (h : n'.roomSockets = n.roomSockets) :
    n'.Vacant R ↔ n.Vacant R := by
  rw [Vacant, Vacant, socketsOf_congr (congrArg (EsMap.get · R) h)]

theorem vacant_of_empties_eq_false (h : n.empties R s = false)
    (hlast : ∀ s', s' ∈ n.socketsOf R → s' = s) : n.Vacant R := by
  refine vacant_iff.mpr fun s' hs' ↦ ?_
  cases hget : n.roomSockets.get R with
  | none =>
    rw [socketsOf, hget] at hs'
    exact EsSet.not_mem_empty hs'
  | some sockets =>
    rw [socketsOf_of_get_eq_some hget] at hs' hlast
    rw [empties, hget, Option.any_some, decide_eq_false_iff_not] at h
    refine h (EsSet.size_eq_zero_iff.mpr fun s'' hs'' ↦ ?_)
    obtain ⟨hne, hmem⟩ := EsSet.mem_delete.mp hs''
    exact hne (hlast s'' hmem)

/-! ## Adding and removing -/

theorem mem_socketsOf_addSocketToRoom :
    s' ∈ (n.addSocketToRoom R s).socketsOf R' ↔ R' = R ∧ s' = s ∨ s' ∈ n.socketsOf R' :=
  EsMap.mem_itemsOf_insertItem

theorem roomSockets_removeSocketFromRoom (n : Node) (R : RoomId) (s : SocketId) :
    (n.removeSocketFromRoom R s).roomSockets = n.roomSockets.removeItem R s := by
  rw [removeSocketFromRoom, EsMap.removeItem]
  cases n.roomSockets.get R with
  | none => rfl
  | some sockets =>
    dsimp only
    split <;> rfl

/-- Removing a socket changes one room and calls `unsubscribeFromRoomChannel` at most once. -/
theorem removeSocketFromRoom_spec (n : Node) (R : RoomId) (s : SocketId) :
    (∀ R', R' ≠ R →
        (n.removeSocketFromRoom R s).roomSockets.get R' = n.roomSockets.get R') ∧
      (∀ s', s' ∈ (n.removeSocketFromRoom R s).socketsOf R ↔ s' ∈ n.socketsOf R ∧ s' ≠ s) ∧
      (n.removeSocketFromRoom R s).pg =
        if n.empties R s then n.pg.unsubscribeFromRoomChannel R else n.pg := by
  have hrooms := roomSockets_removeSocketFromRoom n R s
  refine ⟨fun R' hR ↦ by rw [hrooms, EsMap.get_removeItem_of_ne hR], fun s' ↦ ?_, ?_⟩
  · change s' ∈ EsMap.itemsOf (n.removeSocketFromRoom R s).roomSockets R ↔ _
    rw [hrooms, EsMap.mem_itemsOf_removeItem]
    simp only [true_and]
    rfl
  · rw [removeSocketFromRoom, empties]
    cases n.roomSockets.get R with
    | none => rfl
    | some sockets =>
      dsimp only
      rw [Option.any_some]
      by_cases hsize : (sockets.delete s).size = 0
      · rw [if_pos hsize, if_pos (decide_eq_true hsize)]
      · rw [if_neg hsize, if_neg (by rwa [decide_eq_true_iff])]

theorem mem_socketsOf_removeSocketFromRoom :
    s' ∈ (n.removeSocketFromRoom R s).socketsOf R' ↔
      s' ∈ n.socketsOf R' ∧ ¬ (R' = R ∧ s' = s) := by
  rw [socketsOf, roomSockets_removeSocketFromRoom]
  exact EsMap.mem_itemsOf_removeItem

theorem removeSocketFromRoom_pg (n : Node) (R : RoomId) (s : SocketId) :
    (n.removeSocketFromRoom R s).pg =
      if n.empties R s then n.pg.unsubscribeFromRoomChannel R else n.pg :=
  (removeSocketFromRoom_spec n R s).2.2

/-- What calls of `unsubscribeFromRoomChannel` do to the value a room has for `g`, the removal of a
socket does when it leaves the room without sockets. -/
theorem value_removeSocketFromRoom {β : Type} {g : PostgresService → β} {f : β → β}
    (hg : ∀ pg R, g (pg.unsubscribeFromRoomChannel R) = if R' = R then f (g pg) else g pg) :
    g (n.removeSocketFromRoom R s).pg =
      if R' = R ∧ n.empties R s then f (g n.pg) else g n.pg := by
  rw [removeSocketFromRoom_pg]
  cases n.empties R s with
  | true => simp only [if_true, hg, and_true]
  | false => simp

theorem roomCount_unsubscribe (pg : PostgresService) (R' R : RoomId) :
    (pg.unsubscribeFromRoomChannel R).roomCount R' =
      if R' = R then pg.roomCount R' - 1 else pg.roomCount R' := by
  rw [PostgresService.roomCount_unsubscribe]
  refine if_ctx_congr Iff.rfl (fun hR ↦ ?_) fun _ ↦ rfl
  rw [hR]

theorem roomCount_removeSocketFromRoom (R' : RoomId) :
    (n.removeSocketFromRoom R s).pg.roomCount R' =
      if R' = R ∧ n.empties R s then n.pg.roomCount R' - 1 else n.pg.roomCount R' :=
  value_removeSocketFromRoom (g := fun pg ↦ pg.roomCount R') (f := (· - 1))
    fun pg ↦ roomCount_unsubscribe pg R'

/-! ## Frames -/

theorem mem_socketsOf_updateRooms_join {k : ℕ} {payload : JoinRoomPayload} :
    s' ∈ (n.updateRooms k s (.joinRoom payload)).socketsOf R ↔
      R = payload.roomId ∧ s' = s ∨ s' ∈ n.socketsOf R :=
  mem_socketsOf_addSocketToRoom

theorem mem_socketsOf_updateRooms_leave {k : ℕ} {payload : RoomPayload} :
    s' ∈ (n.updateRooms k s (.leaveRoom payload)).socketsOf R ↔
      s' ∈ n.socketsOf R ∧ ¬ (R = payload.roomId ∧ s' = s) :=
  mem_socketsOf_removeSocketFromRoom

theorem roomCount_updateRooms_leave {k : ℕ} {payload : RoomPayload} :
    (n.updateRooms k s (.leaveRoom payload)).pg.roomCount R =
      if R = payload.roomId ∧ n.empties payload.roomId s then n.pg.roomCount R - 1
      else n.pg.roomCount R :=
  roomCount_removeSocketFromRoom R

/-! ## Cleaning up -/

theorem mem_socketsOf_cleanupRoom :
    s' ∈ (n.cleanupRoom s R).socketsOf R' ↔ s' ∈ n.socketsOf R' ∧ ¬ (R' = R ∧ s' = s) := by
  rw [cleanupRoom]
  split
  · exact mem_socketsOf_removeSocketFromRoom
  · rename_i hs
    refine ⟨fun h ↦ ⟨h, ?_⟩, fun h ↦ h.1⟩
    rintro ⟨rfl, rfl⟩
    exact hs h

theorem get_cleanupRoom_of_ne (hR : R' ≠ R) :
    (n.cleanupRoom s R).roomSockets.get R' = n.roomSockets.get R' := by
  rw [cleanupRoom]
  split
  · exact (removeSocketFromRoom_spec n R s).1 R' hR
  · rfl

theorem value_cleanupRoom {β : Type} {g : PostgresService → β} {f : β → β}
    (hg : ∀ pg R, g (pg.unsubscribeFromRoomChannel R) = if R' = R then f (g pg) else g pg) :
    g (n.cleanupRoom s R).pg =
      if R' = R ∧ s ∈ n.socketsOf R ∧ n.empties R s then f (g n.pg) else g n.pg := by
  rw [cleanupRoom]
  split
  · rename_i hs
    rw [value_removeSocketFromRoom hg]
    simp only [hs, true_and]
  · rename_i hs
    simp only [hs, false_and, and_false, if_false]

/-- The loop of `cleanupSocket` over the rooms `l`. -/
theorem mem_socketsOf_foldl_cleanupRoom (l : List RoomId) (n : Node) :
    s' ∈ (l.foldl (fun n R ↦ n.cleanupRoom s R) n).socketsOf R' ↔
      s' ∈ n.socketsOf R' ∧ ¬ (R' ∈ l ∧ s' = s) := by
  induction l generalizing n with
  | nil => simp
  | cons R l ih =>
    rw [List.foldl_cons, ih, mem_socketsOf_cleanupRoom, List.mem_cons]
    tauto

/-- A room is unsubscribed from at most once, when the loop comes to it. -/
theorem value_foldl_cleanupRoom {β : Type} {g : PostgresService → β} {f : β → β}
    (hg : ∀ pg R, g (pg.unsubscribeFromRoomChannel R) = if R' = R then f (g pg) else g pg)
    (l : List RoomId) (n : Node) :
    g (l.foldl (fun n R ↦ n.cleanupRoom s R) n).pg =
      if R' ∈ l ∧ s ∈ n.socketsOf R' ∧ n.empties R' s then f (g n.pg) else g n.pg := by
  induction l generalizing n with
  | nil => simp
  | cons R l ih =>
    rw [List.foldl_cons, ih, value_cleanupRoom hg]
    by_cases hR : R' = R
    · subst hR
      have hgone : s ∉ (n.cleanupRoom s R').socketsOf R' := fun h ↦
        (mem_socketsOf_cleanupRoom.mp h).2 ⟨rfl, rfl⟩
      simp [hgone]
    · have hempties : (n.cleanupRoom s R).empties R' s = n.empties R' s := by
        rw [empties, empties, get_cleanupRoom_of_ne hR]
      have hsockets : (n.cleanupRoom s R).socketsOf R' = n.socketsOf R' :=
        socketsOf_congr (get_cleanupRoom_of_ne hR)
      simp only [hR, hempties, hsockets, false_and, if_false, List.mem_cons, false_or]

theorem mem_keys_of_mem_socketsOf (h : s ∈ n.socketsOf R) : R ∈ n.roomSockets.keys := by
  rw [EsMap.mem_keys_iff]
  cases hget : n.roomSockets.get R with
  | none =>
    rw [socketsOf, hget] at h
    exact absurd h EsSet.not_mem_empty
  | some sockets => rfl

/-- `userSockets` has no part in rooms and counts. -/
theorem removeUserSocket_frame (n : Node) (s : SocketId) (userId : UserId) :
    (n.removeUserSocket s userId).roomSockets = n.roomSockets ∧
      (n.removeUserSocket s userId).pg = n.pg ∧ (n.removeUserSocket s userId).log = n.log ∧
      SameBeside n (n.removeUserSocket s userId) := by
  rw [removeUserSocket]
  split
  · exact ⟨rfl, rfl, rfl, SameBeside.refl n⟩
  · split <;> exact ⟨rfl, rfl, rfl, ⟨rfl, rfl, rfl, rfl, rfl⟩⟩

theorem mem_socketsOf_cleanupSocket {userId : UserId} :
    s' ∈ (n.cleanupSocket s userId).socketsOf R ↔ s' ∈ n.socketsOf R ∧ s' ≠ s := by
  obtain ⟨hrooms, -⟩ := removeUserSocket_frame (n.observe (.cleaned s)) s userId
  have hsockets : ((n.observe (.cleaned s)).removeUserSocket s userId).socketsOf R =
      n.socketsOf R := socketsOf_congr (by rw [hrooms]; rfl)
  rw [cleanupSocket, mem_socketsOf_foldl_cleanupRoom, hrooms, hsockets]
  refine and_congr_right fun hs' ↦ not_congr ⟨fun h ↦ h.2, fun h ↦ ⟨?_, h⟩⟩
  exact mem_keys_of_mem_socketsOf hs'

theorem value_cleanupSocket {β : Type} {g : PostgresService → β} {f : β → β}
    (hg : ∀ pg R', g (pg.unsubscribeFromRoomChannel R') = if R = R' then f (g pg) else g pg)
    {userId : UserId} :
    g (n.cleanupSocket s userId).pg =
      if s ∈ n.socketsOf R ∧ n.empties R s then f (g n.pg) else g n.pg := by
  obtain ⟨hrooms, hpg, -⟩ := removeUserSocket_frame (n.observe (.cleaned s)) s userId
  have hsockets : ((n.observe (.cleaned s)).removeUserSocket s userId).socketsOf R =
      n.socketsOf R := socketsOf_congr (by rw [hrooms]; rfl)
  rw [cleanupSocket, value_foldl_cleanupRoom hg, empties, hrooms, hpg, hsockets]
  change (if R ∈ n.roomSockets.keys ∧ s ∈ n.socketsOf R ∧ n.empties R s = true then
    f (g n.pg) else g n.pg) = _
  refine if_congr ⟨fun h ↦ h.2, fun h ↦ ⟨mem_keys_of_mem_socketsOf h.1, h⟩⟩ rfl rfl

theorem roomCount_cleanupSocket {userId : UserId} :
    (n.cleanupSocket s userId).pg.roomCount R =
      if s ∈ n.socketsOf R ∧ n.empties R s then n.pg.roomCount R - 1 else n.pg.roomCount R :=
  value_cleanupSocket (g := fun pg ↦ pg.roomCount R) (f := (· - 1))
    fun pg ↦ roomCount_unsubscribe pg R

/-- A cleanup does to the LISTEN connection what calls of `unsubscribeFromRoomChannel` do. -/
theorem pg_cleanupSocket {P : PostgresService → Prop}
    (hP : ∀ pg R, P pg → P (pg.unsubscribeFromRoomChannel R)) {userId : UserId} (h : P n.pg) :
    P (n.cleanupSocket s userId).pg := by
  have hfold : ∀ (l : List RoomId) (n : Node), P n.pg →
      P (l.foldl (fun n R ↦ n.cleanupRoom s R) n).pg := by
    intro l
    induction l with
    | nil => exact fun _ ↦ id
    | cons R l ih =>
      intro n hn
      refine ih (n.cleanupRoom s R) ?_
      rw [cleanupRoom]
      split
      · rw [removeSocketFromRoom_pg]
        split
        · exact hP _ _ hn
        · exact hn
      · exact hn
  refine hfold _ _ ?_
  rw [(removeUserSocket_frame _ s userId).2.1]
  exact h

/-- A cleanup changes rooms and counts only, and is logged. -/
theorem cleanupSocket_frame (n : Node) (s : SocketId) (userId : UserId) :
    SameBeside n (n.cleanupSocket s userId) ∧
      (n.cleanupSocket s userId).log = n.log ++ [.cleaned s] := by
  have hfold : ∀ (l : List RoomId) (n : Node),
      SameBeside n (l.foldl (fun n R ↦ n.cleanupRoom s R) n) ∧
        (l.foldl (fun n R ↦ n.cleanupRoom s R) n).log = n.log := by
    intro l
    induction l with
    | nil => exact fun n ↦ ⟨SameBeside.refl n, rfl⟩
    | cons R l ih =>
      intro n
      obtain ⟨hsame, hlog⟩ := ih (n.cleanupRoom s R)
      have hroom : SameBeside n (n.cleanupRoom s R) ∧ (n.cleanupRoom s R).log = n.log := by
        rw [cleanupRoom]
        split
        · exact removeSocketFromRoom_frame n R s
        · exact ⟨SameBeside.refl n, rfl⟩
      exact ⟨hroom.1.trans hsame, hlog.trans hroom.2⟩
  obtain ⟨-, -, hlog, hsame⟩ := removeUserSocket_frame (n.observe (.cleaned s)) s userId
  obtain ⟨hsame', hlog'⟩ := hfold
    ((n.observe (.cleaned s)).removeUserSocket s userId).roomSockets.keys
    ((n.observe (.cleaned s)).removeUserSocket s userId)
  have hobserve : SameBeside n (n.observe (.cleaned s)) := ⟨rfl, rfl, rfl, rfl, rfl⟩
  exact ⟨hobserve.trans (hsame.trans hsame'), hlog'.trans hlog⟩

/-- A socket is taken out of all rooms; it may close as well. -/
structure Cleaned (n n' : Node) (s : SocketId) : Prop where
  same : n'.tasks = n.tasks ∧ n'.db = n.db ∧
    n'.roomMessageBatchBuffers = n.roomMessageBatchBuffers ∧ n'.immediates = n.immediates
  rooms : ∀ s' R, s' ∈ n'.socketsOf R ↔ s' ∈ n.socketsOf R ∧ s' ≠ s
  counts : ∀ R, n'.pg.roomCount R =
    if s ∈ n.socketsOf R ∧ n.empties R s then n.pg.roomCount R - 1 else n.pg.roomCount R
  pg : ∀ P : PostgresService → Prop, (∀ pg R, P pg → P (pg.unsubscribeFromRoomChannel R)) →
    P n.pg → P n'.pg
  opened : ∀ s', n'.isOpen s' = true → n.isOpen s' = true
  length : n'.sockets.length = n.sockets.length
  log : ∃ os, n'.log = n.log ++ os ++ [.cleaned s] ∧ ∀ o ∈ os, o = .closed s

/-- What is observed of a cleanup. -/
theorem Cleaned.log_cases {n n' : Node} {s : SocketId} (h : Cleaned n n' s) :
    ∃ os, n'.log = n.log ++ os ∧ ∀ o ∈ os, o = .closed s ∨ o = .cleaned s := by
  obtain ⟨os, hlog, hos⟩ := h.log
  refine ⟨_, hlog.trans (List.append_assoc _ _ _), fun o ho ↦ ?_⟩
  exact (List.mem_append.mp ho).imp (hos o) List.mem_singleton.mp

/-- The state of a socket changes, and nothing else. -/
structure Marked (n n' : Node) : Prop where
  quiet : Quiet (fun _ ↦ False) n n'
  pg : n'.pg = n.pg
  db : n'.db = n.db
  buffers : n'.roomMessageBatchBuffers = n.roomMessageBatchBuffers
  immediates : n'.immediates = n.immediates
  log : n'.log = n.log

/-- The socket a step cleans up: a heartbeat terminates the sockets that have not answered the one
before. -/
def cleansUp (n : Node) : Event → Option SocketId
  | .heartbeat s => if (n.sockets[s]?.map Socket.isAlive) = some false then some s else none
  | .socketError s | .socketClose s => some s
  | _ => none

theorem cleaned_cleanupSocket (n : Node) (s : SocketId) (userId : UserId) :
    Cleaned n (n.cleanupSocket s userId) s := by
  obtain ⟨hsame, hlog⟩ := cleanupSocket_frame n s userId
  refine ⟨⟨hsame.tasks, hsame.db, hsame.buffers, hsame.immediates⟩,
    fun s' R ↦ mem_socketsOf_cleanupSocket, fun R ↦ roomCount_cleanupSocket,
    fun P hP h ↦ pg_cleanupSocket hP h, fun s' hs' ↦ ?_, by rw [hsame.sockets],
    [], by rw [hlog, List.append_nil], nofun⟩
  rw [isOpen, hsame.sockets] at hs'
  exact hs'

/-- A heartbeat that finds its socket alive only marks it. -/
theorem cleaned_of_step {n n' : Node} {e : Event} {s : SocketId} (he : e.cleans = some s)
    (hstep : n.step e = some n') :
    Marked n n' ∨ Cleaned n n' s ∧ n.cleansUp e = some s := by
  cases e with
  | heartbeat s' =>
    cases he
    simp only [step, Option.bind_eq_bind, Option.bind_eq_some_iff] at hstep
    obtain ⟨socket, hget, -, -, hstep⟩ := hstep
    split at hstep
    · cases hstep
      exact Or.inl ⟨quiet_updateSocket fun _ ↦ id, rfl, rfl, rfl, rfl, rfl⟩
    · rename_i halive
      cases hstep
      have h := cleaned_cleanupSocket n s socket.userId
      refine Or.inr ⟨⟨h.same, h.rooms, h.counts, h.pg,
        fun s' hs' ↦ h.opened s' (isOpen_updateSocket (by rintro _ ⟨⟩) hs'),
        (List.length_modify _ _ _).trans h.length, h.log⟩, ?_⟩
      rw [cleansUp, hget, Option.map_some, Bool.eq_false_of_not_eq_true halive, if_pos rfl]
  | socketError s' =>
    cases he
    simp only [step, Option.bind_eq_bind, Option.bind_eq_some_iff] at hstep
    obtain ⟨socket, -, -, -, hstep⟩ := hstep
    cases hstep
    exact Or.inr ⟨cleaned_cleanupSocket n s socket.userId, rfl⟩
  | socketClose s' =>
    cases he
    simp only [step, Option.bind_eq_bind, Option.bind_eq_some_iff] at hstep
    obtain ⟨socket, -, -, -, hstep⟩ := hstep
    cases hstep
    have h := cleaned_cleanupSocket ((n.updateSocket s fun socket ↦
      { socket with readyState := .closed }).observe (.closed s)) s socket.userId
    obtain ⟨os, hlog, hos⟩ := h.log
    refine Or.inr ⟨⟨h.same, h.rooms, h.counts, h.pg,
      fun s' hs' ↦ isOpen_updateSocket (by rintro _ ⟨⟩) (h.opened s' hs'),
      h.length.trans (List.length_modify _ _ _), .closed s :: os, ?_, ?_⟩, rfl⟩
    · rw [hlog, List.append_cons n.log]
      rfl
    · rintro o (_ | ⟨_, ho⟩)
      · rfl
      · exact hos o ho
  | _ => cases he

theorem isOpen_updateSocket_self {n : Node} {s : SocketId} {f : Socket → Socket}
    (hf : ∀ socket, (f socket).readyState ≠ .opened) : (n.updateSocket s f).isOpen s = false := by
  rw [isOpen, decide_eq_false_iff_not, Option.map_eq_some_iff]
  rintro ⟨socket, hget, hopen⟩
  change (n.sockets.modify s f)[s]? = some socket at hget
  rw [List.getElem?_modify, Option.map_eq_map, Option.map_eq_some_iff] at hget
  obtain ⟨old, -, rfl⟩ := hget
  rw [if_pos rfl] at hopen
  exact hf old hopen

/-- A socket that is cleaned up is not open any more, except after an error. -/
theorem isOpen_of_cleansUp {n n' : Node} {e : Event} {s : SocketId} (hs : n.cleansUp e = some s)
    (he : e.failing = none) (hstep : n.step e = some n') : n'.isOpen s = false := by
  cases e with
  | heartbeat s' =>
    rw [cleansUp] at hs
    split at hs
    · rename_i halive
      cases hs
      simp only [step, Option.bind_eq_bind, Option.bind_eq_some_iff] at hstep
      obtain ⟨socket, hget, -, -, hstep⟩ := hstep
      rw [hget, Option.map_some, Option.some.injEq] at halive
      rw [halive] at hstep
      cases hstep
      exact isOpen_updateSocket_self (by rintro _ ⟨⟩)
    · cases hs
  | socketError s' => cases he
  | socketClose s' =>
    cases hs
    simp only [step, Option.bind_eq_bind, Option.bind_eq_some_iff] at hstep
    obtain ⟨socket, -, -, -, hstep⟩ := hstep
    cases hstep
    have hclosed := isOpen_updateSocket_self (n := n) (s := s)
      (f := fun socket ↦ { socket with readyState := .closed }) (by rintro _ ⟨⟩)
    obtain ⟨hsame, -⟩ := cleanupSocket_frame ((n.updateSocket s fun socket ↦
      { socket with readyState := .closed }).observe (.closed s)) s socket.userId
    rw [isOpen, hsame.sockets]
    exact hclosed
  | _ => cases hs

/-! ## The kinds of steps -/

/-- What a step is, as far as rooms, handlers and sockets go: a socket connects, a frame arrives, a
handler continues, a socket is marked or cleaned up, or the step is quiet. -/
inductive Stepped (n : Node) : Event → Node → Prop
  | connected (userId : UserId) (nonempty : userId ≠ []) :
    Stepped n (.connect userId) { n with
      sockets := n.sockets ++ [{ userId := userId, userId_ne_nil := nonempty }]
      userSockets := n.userSockets.set userId
        (((n.userSockets.get userId).getD ∅).add n.sockets.length) }
  | received (s : SocketId) (frame : ClientFrame) (socket : Socket) (n' : Node)
      (get : n.sockets[s]? = some socket) (received : Received n n' s socket.userId frame) :
    Stepped n (.frame s frame) n'
  | resumed (k : ℕ) (task : Task) (stage : Stage) (settled : Settled) (n' : Node)
      (resumed : Resumed n n' k task stage settled) : Stepped n (.resume k) n'
  | marked (e : Event) (s : SocketId) (n' : Node) (cleans : e.cleans = some s)
      (marked : Marked n n') : Stepped n e n'
  | cleaned (e : Event) (s : SocketId) (n' : Node) (cleans : e.cleans = some s)
      (cleansUp : n.cleansUp e = some s) (cleaned : Cleaned n n' s) : Stepped n e n'
  | quiet (e : Event) (n' : Node) (event : e.quiet = true)
      (quiet : Quiet (n.BroadcastsTo e) n n') : Stepped n e n'

theorem stepped_of_step {n n' : Node} {e : Event} (hstep : n.step e = some n') :
    Stepped n e n' := by
  have hcleans : ∀ {s : SocketId}, e.cleans = some s → Stepped n e n' := fun hs ↦
    (cleaned_of_step hs hstep).elim (.marked e _ n' hs) fun h ↦ .cleaned e _ n' hs h.2 h.1
  cases e with
  | connect userId =>
    simp only [step, Option.dite_none_right_eq_some, Option.some.injEq] at hstep
    obtain ⟨hu, rfl⟩ := hstep
    exact .connected userId hu
  | frame s frame =>
    obtain ⟨socket, hget, -, hreceived⟩ := received_of_step hstep
    exact .received s frame socket n' hget hreceived
  | resume k =>
    obtain ⟨task, stage, settled, hresumed⟩ := resumed_of_step hstep
    exact .resumed k task stage settled n' hresumed
  | heartbeat s => exact hcleans rfl
  | socketError s => exact hcleans rfl
  | socketClose s => exact hcleans rfl
  | _ => exact .quiet _ n' rfl (quiet_of_step rfl hstep)

/-! ## Handlers -/

/-- No handler starts or continues. -/
structure Idle (n n' : Node) : Prop where
  settles : Settles n n'
  sockets : n.sockets.length ≤ n'.sockets.length
  log : ∃ os, n'.log = n.log ++ os ∧ ∀ o ∈ os, o.ofHandler = false

/-- The three kinds of steps, as far as handlers go: none takes a turn, one starts, or one
continues. -/
theorem handler_cases {n n' : Node} {e : Event} (hstep : n.step e = some n') :
    Idle n n' ∨
      (∃ s frame socket, e = .frame s frame ∧ n.sockets[s]? = some socket ∧
        Received n n' s socket.userId frame) ∨
      ∃ k task stage settled, e = .resume k ∧ Resumed n n' k task stage settled := by
  have hquiet : ∀ {S : RoomId → Prop}, Quiet S n n' → Idle n n' := by
    intro S hquiet
    obtain ⟨os, hlog, hos⟩ := hquiet.log
    refine ⟨hquiet.settles, Nat.le_of_eq hquiet.length.symm, os, hlog, fun o ho ↦ ?_⟩
    have hout := hos o ho
    cases o <;> first | rfl | exact hout.elim
  cases stepped_of_step hstep with
  | connected userId =>
    exact Or.inl ⟨Or.inl rfl, by rw [List.length_append]; exact Nat.le_add_right _ _, [],
      (List.append_nil _).symm, by rintro _ ⟨⟩⟩
  | received s frame socket _ hget hreceived =>
    exact Or.inr (Or.inl ⟨s, frame, socket, rfl, hget, hreceived⟩)
  | resumed k task stage settled _ hresumed =>
    exact Or.inr (Or.inr ⟨k, task, stage, settled, rfl, hresumed⟩)
  | marked _ s _ _ hmarked => exact Or.inl (hquiet hmarked.quiet)
  | cleaned _ s _ _ _ hcleaned =>
    obtain ⟨os, hlog, hos⟩ := hcleaned.log_cases
    refine Or.inl ⟨Or.inl hcleaned.same.1, Nat.le_of_eq hcleaned.length.symm, os, hlog, ?_⟩
    intro o ho
    rcases hos o ho with rfl | rfl <;> rfl
  | quiet _ _ _ hq => exact Or.inl (hquiet hq)

/-- The log after a continuation: that a check has passed, and what the turn sends. -/
theorem Resumed.log {n n' : Node} {k : ℕ} {task : Task} {stage : Stage} {settled : Settled}
    (h : Resumed n n' k task stage settled) :
    ∃ os, n'.log = n.log ++ os ∧ ∀ o ∈ os, o = .checkPassed k ∨
      ∃ send, (stage.resume settled).send = some send ∧ o = .replied k task.socket send.frame := by
  obtain ⟨-, -, -, os, hlog, hos⟩ := observeCheck_frame n k stage settled
  obtain ⟨os', hlog', hos'⟩ := h.turned.log
  refine ⟨os ++ os', by rw [hlog', hlog, List.append_assoc], fun o ho ↦ ?_⟩
  exact (List.mem_append.mp ho).imp (hos o) fun ho ↦ (hos' o ho).2

/-- The log only grows. -/
theorem log_of_step {n n' : Node} {e : Event} (hstep : n.step e = some n') :
    ∃ os, n'.log = n.log ++ os := by
  rcases handler_cases hstep with hidle | ⟨s, frame, socket, -, -, hreceived⟩ |
    ⟨k, task, stage, settled, -, hresumed⟩
  · exact hidle.log.imp fun os h ↦ h.1
  · obtain ⟨os, hlog, -⟩ := hreceived.log
    exact ⟨_, hlog.trans (List.append_assoc _ _ _)⟩
  · exact hresumed.log.imp fun os h ↦ h.1

end Node

end PostgresChat
