import PostgresChat.Node.Rooms

/-!
# What a step does to sockets

A socket keeps its user, and `roomSockets` has no entry without sockets: an entry whose last socket
goes is deleted.
-/

namespace PostgresChat

open Execution

/-- What stays with a socket: its user, and that it has closed. -/
def Socket.key (socket : Socket) : UserId × Bool :=
  (socket.userId, decide (socket.readyState = .closed))

namespace Node

variable {n n' n'' : Node} {s : SocketId} {R : RoomId}

/-! ## Users -/

/-- The users of the sockets, in the order of their connections. -/
def socketUsers (n : Node) : List UserId := n.sockets.map Socket.userId

theorem socketUsers_get {socket : Socket} (hget : n.sockets[s]? = some socket) :
    n.socketUsers[s]? = some socket.userId := by
  rw [socketUsers, List.getElem?_map, hget, Option.map_some]

/-- The user of a socket, and whether it has closed. -/
def socketKeys (n : Node) : List (UserId × Bool) := n.sockets.map Socket.key

theorem socketUsers_eq (n : Node) : n.socketUsers = n.socketKeys.map Prod.fst := by
  rw [socketUsers, socketKeys, List.map_map]
  rfl

theorem socketKeys_updateSocket {f : Socket → Socket}
    (hf : ∀ socket, n.sockets[s]? = some socket → (f socket).key = socket.key) :
    (n.updateSocket s f).socketKeys = n.socketKeys := by
  refine List.ext_getElem? fun i ↦ ?_
  rw [socketKeys, socketKeys, List.getElem?_map, List.getElem?_map]
  change Option.map _ (n.sockets.modify s f)[i]? = _
  rw [List.getElem?_modify]
  split
  · rename_i hs
    subst hs
    cases hget : n.sockets[s]? with
    | none => rfl
    | some socket => exact congrArg some (hf socket hget)
  · cases n.sockets[i]? <;> rfl

/-- No socket connects or closes, and none changes its user. -/
structure SameSockets (n n' : Node) : Prop where
  users : n'.userSockets = n.userSockets
  keys : n'.socketKeys = n.socketKeys

theorem SameSockets.of_eq (husers : n'.userSockets = n.userSockets)
    (hsockets : n'.sockets = n.sockets) : SameSockets n n' :=
  ⟨husers, congrArg (List.map Socket.key) hsockets⟩

theorem SameSockets.refl (n : Node) : SameSockets n n := ⟨rfl, rfl⟩

theorem SameSockets.trans (h : SameSockets n n') (h' : SameSockets n' n'') : SameSockets n n'' :=
  ⟨h'.users.trans h.users, h'.keys.trans h.keys⟩

theorem SameSockets.foldl {α : Type} {f : Node → α → Node} (hf : ∀ n a, SameSockets n (f n a))
    (l : List α) (n : Node) : SameSockets n (l.foldl f n) := by
  induction l generalizing n with
  | nil => exact SameSockets.refl n
  | cons a l ih => exact (hf n a).trans (ih (f n a))

theorem sameSockets_withDb (n : Node) (db : Db) (notes : List Notification) :
    SameSockets n (n.withDb db notes) := by
  have hnotify : ∀ (n : Node) (note : Notification), SameSockets n (n.notify note) :=
    fun _ _ ↦ ⟨rfl, rfl⟩
  have hdb : SameSockets n { n with db := db } := ⟨rfl, rfl⟩
  exact hdb.trans (SameSockets.foldl hnotify notes _)

theorem sameSockets_send (n : Node) (s : SocketId) (o : Observation) :
    SameSockets n (n.send s o) := by
  rw [send]
  split <;> exact ⟨rfl, rfl⟩

theorem sameSockets_broadcastToRoom (n : Node) (R : RoomId) (frame : ServerFrame) :
    SameSockets n (n.broadcastToRoom R frame) := by
  rw [broadcastToRoom]
  split <;> exact ⟨rfl, rfl⟩

theorem sameSockets_flushRoomMessageBatches (n : Node) :
    SameSockets n n.flushRoomMessageBatches := by
  have hbatch : ∀ (n : Node) (entry : RoomId × List MessageRow),
      SameSockets n (n.flushBatch entry) := by
    intro n entry
    rw [flushBatch]
    split
    · exact SameSockets.refl n
    · exact sameSockets_broadcastToRoom n entry.1 _
  exact (SameSockets.foldl hbatch n.roomMessageBatchBuffers.toList n).trans ⟨rfl, rfl⟩

theorem sameSockets_onNotification (n : Node) (note : Notification) :
    SameSockets n (n.onNotification note) := by
  cases note with
  | message row => exact ⟨rfl, rfl⟩
  | presence row => exact sameSockets_broadcastToRoom n _ _
  | typing row => exact sameSockets_broadcastToRoom n _ _

theorem sameSockets_takeTurn (n : Node) (k : ℕ) (task : Task) (turn : Turn) :
    SameSockets n (n.takeTurn k task turn) := by
  have hreply : SameSockets n (n.reply k task.socket turn.send) := by
    unfold reply
    split
    · exact sameSockets_send n _ _
    · exact SameSockets.refl n
  refine hreply.trans ?_
  obtain ⟨send, next⟩ := turn
  cases next <;> exact ⟨rfl, rfl⟩

theorem sameSockets_observeCheck (n : Node) (k : ℕ) (stage : Stage) (settled : Settled) :
    SameSockets n (n.observeCheck k stage settled) := by
  unfold observeCheck
  split
  · split <;> exact ⟨rfl, rfl⟩
  · exact SameSockets.refl n

/-- A quiet step changes at most flags of a socket. -/
theorem sameSockets_of_quiet_step {e : Event} (he : e.quiet = true) (hstep : n.step e = some n') :
    SameSockets n n' := by
  have hupdate : ∀ {s : SocketId} {f : Socket → Socket},
      (∀ socket, n.sockets[s]? = some socket → (f socket).key = socket.key) →
      SameSockets n (n.updateSocket s f) := fun hf ↦ ⟨rfl, socketKeys_updateSocket hf⟩
  cases e with
  | runQuery k fate =>
    simp only [step, Option.bind_eq_bind, Option.bind_eq_some_iff] at hstep
    obtain ⟨task, -, hstep⟩ := hstep
    split at hstep
    · cases hstep
    · split at hstep
      · cases hstep
        unfold Node.runQuery
        split
        · exact (sameSockets_withDb n _ _).trans ⟨rfl, rfl⟩
        · exact (sameSockets_withDb n _ _).trans ⟨rfl, rfl⟩
        · exact ⟨rfl, rfl⟩
      · cases hstep
    · cases hstep
  | beginInsert k =>
    simp only [step, Option.bind_eq_bind, Option.bind_eq_some_iff] at hstep
    obtain ⟨task, -, hstep⟩ := hstep
    split at hstep
    · cases hstep
      rw [Node.beginInsert]
      split
      · exact (sameSockets_withDb n _ _).trans ⟨rfl, rfl⟩
      · exact ⟨rfl, rfl⟩
    · cases hstep
  | insertSettles k lost =>
    simp only [step, Option.bind_eq_bind, Option.bind_eq_some_iff] at hstep
    obtain ⟨task, -, hstep⟩ := hstep
    split at hstep
    · simp only [Option.bind_eq_some_iff] at hstep
      obtain ⟨ins, -, -, -, hstep⟩ := hstep
      cases hstep
      exact ⟨rfl, rfl⟩
    · cases hstep
  | db d =>
    simp only [step, Option.bind_eq_bind, Option.bind_eq_some_iff] at hstep
    obtain ⟨⟨db, notes⟩, -, hstep⟩ := hstep
    cases hstep
    exact sameSockets_withDb n db notes
  | pg d =>
    simp only [step, Option.bind_eq_bind, Option.bind_eq_some_iff] at hstep
    obtain ⟨-, -, pg, -, hstep⟩ := hstep
    cases hstep
    exact ⟨rfl, rfl⟩
  | deliver c =>
    simp only [step, Option.bind_eq_bind, Option.bind_eq_some_iff] at hstep
    obtain ⟨pg, -, hstep⟩ := hstep
    have hpg : SameSockets n { n with pg := pg } := ⟨rfl, rfl⟩
    split at hstep
    · cases hstep
      exact hpg.trans (sameSockets_onNotification _ _)
    · cases hstep
      exact hpg
  | flush =>
    simp only [step, Option.ite_none_right_eq_some, Option.some.injEq] at hstep
    obtain ⟨-, rfl⟩ := hstep
    have htimer : SameSockets n { n with flushTimer := false } := ⟨rfl, rfl⟩
    exact htimer.trans (sameSockets_flushRoomMessageBatches _)
  | immediate =>
    simp only [step] at hstep
    split at hstep
    · cases hstep
    · rename_i recipients frame rest _
      cases hstep
      have hrest : SameSockets n { n with immediates := rest } := ⟨rfl, rfl⟩
      exact hrest.trans (SameSockets.foldl (fun n s ↦ sameSockets_send n s _) recipients _)
  | pong s =>
    cases hstep
    exact hupdate fun _ _ ↦ rfl
  | socketClosing s =>
    simp only [step, Option.bind_eq_bind, Option.bind_eq_some_iff, Option.guard_eq_some'] at hstep
    obtain ⟨socket, hget, -, hopen, hstep⟩ := hstep
    cases hstep
    refine hupdate fun socket' hget' ↦ ?_
    obtain rfl := Option.some.inj (hget.symm.trans hget')
    rw [Socket.key, Socket.key, hopen]
    rfl
  | buffered s bytes =>
    cases hstep
    exact hupdate fun _ _ ↦ rfl
  | destroyChat =>
    cases hstep
    exact ⟨rfl, rfl⟩
  | connect _ | frame _ _ | resume _ | heartbeat _ | socketError _ | socketClose _ => cases he

theorem socketUsers_updateSocket {f : Socket → Socket}
    (hf : ∀ socket, (f socket).userId = socket.userId) :
    (n.updateSocket s f).socketUsers = n.socketUsers := by
  refine List.ext_getElem? fun i ↦ ?_
  rw [socketUsers, socketUsers, List.getElem?_map, List.getElem?_map]
  change Option.map _ (n.sockets.modify s f)[i]? = _
  rw [List.getElem?_modify]
  split
  · cases n.sockets[i]? with
    | none => rfl
    | some socket => exact congrArg some (hf socket)
  · cases n.sockets[i]? <;> rfl

theorem socketUsers_of_eq (h : n'.sockets = n.sockets) : n'.socketUsers = n.socketUsers := by
  rw [socketUsers, socketUsers, h]

theorem SameSockets.socketUsers (h : SameSockets n n') : n'.socketUsers = n.socketUsers := by
  rw [socketUsers_eq, h.keys, ← socketUsers_eq]

theorem socketUsers_cleanupSocket (n : Node) (s : SocketId) (userId : UserId) :
    (n.cleanupSocket s userId).socketUsers = n.socketUsers :=
  socketUsers_of_eq (cleanupSocket_frame n s userId).1.sockets

theorem socketUsers_of_connect {userId : UserId} (hstep : n.step (.connect userId) = some n') :
    n'.socketUsers = n.socketUsers ++ [userId] := by
  simp only [step, Option.dite_none_right_eq_some, Option.some.injEq] at hstep
  obtain ⟨-, rfl⟩ := hstep
  exact List.map_append

/-- Users come with connections only. -/
theorem socketUsers_of_other_step {e : Event} (he : ∀ userId, e ≠ .connect userId)
    (hstep : n.step e = some n') : n'.socketUsers = n.socketUsers := by
  have hquiet : e.quiet = true → n'.socketUsers = n.socketUsers := fun he ↦
    (sameSockets_of_quiet_step he hstep).socketUsers
  cases e with
  | connect userId => exact absurd rfl (he userId)
  | frame s frame =>
    obtain ⟨socket, -, -, hreceived⟩ := received_of_step hstep
    exact socketUsers_of_eq hreceived.sockets
  | resume k =>
    obtain ⟨task, stage, settled, hresumed⟩ := resumed_of_step hstep
    exact socketUsers_of_eq
      (hresumed.turned.sockets.trans (observeCheck_frame n k stage settled).1.sockets)
  | heartbeat s =>
    simp only [step, Option.bind_eq_bind, Option.bind_eq_some_iff] at hstep
    obtain ⟨socket, -, -, -, hstep⟩ := hstep
    split at hstep
    · cases hstep
      exact socketUsers_updateSocket fun _ ↦ rfl
    · cases hstep
      have hmarked := socketUsers_updateSocket (n := n.cleanupSocket s socket.userId) (s := s)
        (f := fun socket ↦ { socket with readyState := .closing }) fun _ ↦ rfl
      exact hmarked.trans (socketUsers_cleanupSocket n s socket.userId)
  | socketError s =>
    simp only [step, Option.bind_eq_bind, Option.bind_eq_some_iff] at hstep
    obtain ⟨socket, -, -, -, hstep⟩ := hstep
    cases hstep
    exact socketUsers_cleanupSocket n s _
  | socketClose s =>
    simp only [step, Option.bind_eq_bind, Option.bind_eq_some_iff] at hstep
    obtain ⟨socket, -, -, -, hstep⟩ := hstep
    cases hstep
    exact (socketUsers_cleanupSocket _ s _).trans
      (socketUsers_updateSocket (n := n) fun _ ↦ rfl)
  | _ => exact hquiet rfl

/-- Sockets are added at the end, and keep their users. -/
theorem socketUsers_of_step {e : Event} (hstep : n.step e = some n') :
    n.socketUsers <+: n'.socketUsers := by
  by_cases he : ∃ userId, e = .connect userId
  · obtain ⟨userId, rfl⟩ := he
    exact socketUsers_of_connect hstep ▸ List.prefix_append _ _
  · exact (socketUsers_of_other_step (fun userId h ↦ he ⟨userId, h⟩) hstep) ▸ List.prefix_refl _

theorem socketUser_of_step {e : Event} (hstep : n.step e = some n') {userId : UserId}
    (h : n.socketUsers[s]? = some userId) : n'.socketUsers[s]? = some userId := by
  obtain ⟨l, hl⟩ := socketUsers_of_step hstep
  rw [← hl, List.getElem?_append_left (List.getElem?_eq_some_iff.mp h).1, h]

/-! ## Rooms are not empty -/

/-- Every entry of `roomSockets` has a socket. -/
def Occupied (n : Node) : Prop :=
  ∀ R sockets, n.roomSockets.get R = some sockets → sockets.size ≠ 0

theorem occupied_start (nodeId : JsString) : Occupied (start nodeId) := by
  rintro R sockets ⟨⟩

theorem Occupied.of_rooms (h : n.Occupied) (hrooms : n'.roomSockets = n.roomSockets) :
    n'.Occupied := fun R sockets hget ↦ h R sockets (hrooms ▸ hget)

theorem Occupied.addSocketToRoom (h : n.Occupied) (R : RoomId) (s : SocketId) :
    (n.addSocketToRoom R s).Occupied := EsMap.Occupied.insertItem h

theorem Occupied.removeSocketFromRoom (h : n.Occupied) (R : RoomId) (s : SocketId) :
    (n.removeSocketFromRoom R s).Occupied := by
  rw [Occupied, roomSockets_removeSocketFromRoom]
  exact EsMap.Occupied.removeItem h

theorem Occupied.cleanupSocket (h : n.Occupied) (s : SocketId) (userId : UserId) :
    (n.cleanupSocket s userId).Occupied := by
  have hfold : ∀ (l : List RoomId) (n : Node), n.Occupied →
      (l.foldl (fun n R ↦ n.cleanupRoom s R) n).Occupied := by
    intro l
    induction l with
    | nil => exact fun _ ↦ id
    | cons R l ih =>
      intro n hn
      refine ih _ ?_
      change (if s ∈ n.socketsOf R then n.removeSocketFromRoom R s else n).Occupied
      split
      · exact hn.removeSocketFromRoom R s
      · exact hn
  refine hfold _ _ ?_
  exact h.of_rooms (removeUserSocket_frame (n.observe (.cleaned s)) s userId).1

theorem Occupied.step (h : n.Occupied) {e : Event} (hstep : n.step e = some n') :
    n'.Occupied := by
  have hquiet : e.quiet = true → n'.Occupied := fun he ↦ h.of_rooms (quiet_of_step he hstep).rooms
  cases e with
  | connect userId =>
    simp only [Node.step, Option.dite_none_right_eq_some, Option.some.injEq] at hstep
    obtain ⟨-, rfl⟩ := hstep
    exact h
  | frame s frame =>
    obtain ⟨socket, -, -, hreceived⟩ := received_of_step hstep
    refine Occupied.of_rooms ?_ hreceived.rooms
    cases frame with
    | joinRoom payload => exact Occupied.addSocketToRoom (n := n.observe _) h _ s
    | leaveRoom payload => exact Occupied.removeSocketFromRoom (n := n.observe _) h _ s
    | _ => exact h
  | resume k =>
    obtain ⟨task, stage, settled, hresumed⟩ := resumed_of_step hstep
    exact h.of_rooms (hresumed.turned.rooms.trans (observeCheck_frame n k stage settled).2.1)
  | heartbeat s =>
    simp only [Node.step, Option.bind_eq_bind, Option.bind_eq_some_iff] at hstep
    obtain ⟨socket, -, -, -, hstep⟩ := hstep
    split at hstep
    · cases hstep
      exact h
    · cases hstep
      exact h.cleanupSocket s socket.userId
  | socketError s =>
    simp only [Node.step, Option.bind_eq_bind, Option.bind_eq_some_iff] at hstep
    obtain ⟨socket, -, -, -, hstep⟩ := hstep
    cases hstep
    exact h.cleanupSocket s socket.userId
  | socketClose s =>
    simp only [Node.step, Option.bind_eq_bind, Option.bind_eq_some_iff] at hstep
    obtain ⟨socket, -, -, -, hstep⟩ := hstep
    cases hstep
    exact Occupied.cleanupSocket (n := (n.updateSocket s _).observe _) h s socket.userId
  | _ => exact hquiet rfl

theorem occupied_of_run {nodeId : JsString} {es : List Event}
    (hrun : run step (start nodeId) es = some n) : n.Occupied :=
  run_invariant Occupied (fun h hstep ↦ h.step hstep) (occupied_start nodeId) hrun

/-- A socket is the last one of a room exactly when it is in the room alone. -/
theorem Occupied.empties_iff (h : n.Occupied) :
    n.empties R s = true ↔ s ∈ n.socketsOf R ∧ ∀ s' ∈ n.socketsOf R, s' = s := by
  rw [empties, Option.any_eq_true]
  constructor
  · rintro ⟨sockets, hget, hsize⟩
    rw [socketsOf_of_get_eq_some hget]
    have hlast : ∀ s' ∈ sockets, s' = s := fun s' hs' ↦ by
      by_contra hne
      exact EsSet.size_eq_zero_iff.mp (of_decide_eq_true hsize) s' (EsSet.mem_delete.mpr ⟨hne, hs'⟩)
    obtain ⟨s', hs'⟩ := not_forall_not.mp (mt EsSet.size_eq_zero_iff.mpr (h R sockets hget))
    exact ⟨hlast s' hs' ▸ hs', hlast⟩
  · rintro ⟨hs, hlast⟩
    cases hget : n.roomSockets.get R with
    | none =>
      rw [socketsOf, hget] at hs
      exact absurd hs EsSet.not_mem_empty
    | some sockets =>
      rw [socketsOf_of_get_eq_some hget] at hlast
      refine ⟨sockets, rfl, decide_eq_true (EsSet.size_eq_zero_iff.mpr fun s' hs' ↦ ?_)⟩
      obtain ⟨hne, hmem⟩ := EsSet.mem_delete.mp hs'
      exact hne (hlast s' hmem)

end Node

end PostgresChat
