import PostgresChat.Node.Calm
import PostgresChat.Node.Sockets
import PostgresChat.Postgres.Outstanding

/-!
# The registry of sockets

`userSockets` and `roomSockets` are maps of sets, changed by a connection, by the frames that join
and leave a room, and by `cleanupSocket`, which an error, a close and a heartbeat may each run for
one socket. `Registered` is what all of them keep: no set is empty, a socket is registered for its
own user only, and a socket that has closed is registered nowhere. The two ways to take a socket
out of a room call `unsubscribeFromRoomChannel` when they take out its last one, and only then.

The order in which `ws` emits the events of a socket is left open here (`stepAnyOrder`): only a
message does not come after a close.
-/

namespace PostgresChat

open Execution

/-! ## Calls of `unsubscribeFromRoomChannel` -/

namespace PostgresService

/-- How often `unsubscribeFromRoomChannel` has been called for a room. -/
def unsubscribeCalls (p : PostgresService) (R : RoomId) : ℕ :=
  (p.calls.map Call.kind).count (.unsubscribe R)

theorem unsubscribeCalls_unsubscribe (p : PostgresService) (R R' : RoomId) :
    (p.unsubscribeFromRoomChannel R').unsubscribeCalls R =
      if R = R' then p.unsubscribeCalls R + 1 else p.unsubscribeCalls R := by
  have hcalls : (p.unsubscribeFromRoomChannel R').calls.map Call.kind =
      p.calls.map Call.kind ++ [.unsubscribe R'] := by
    rw [unsubscribeFromRoomChannel]
    split
    · exact List.map_append
    · split <;> exact List.map_append
  rw [unsubscribeCalls, hcalls, List.count_append, List.count_singleton]
  by_cases hR : R = R'
  · rw [if_pos hR, hR, if_pos (beq_self_eq_true _)]
    rfl
  · rw [if_neg hR, if_neg (by simpa using Ne.symm hR)]
    rfl

end PostgresService

/-! ## Events in any order -/

/-- What `terminate()` leaves of the state of a socket. -/
def Socket.terminate (socket : Socket) : Socket :=
  { socket with readyState := if socket.readyState = .closed then .closed else .closing }

namespace Node

variable {n n' : Node} {s s' : SocketId} {R R' : RoomId} {userId userId' : UserId}

/-- A step when errors, closes and heartbeats may come to a socket that has closed as well. -/
def stepAnyOrder (n : Node) : Event → Option Node
  | .heartbeat s => do
    let socket ← n.sockets[s]?
    if socket.isAlive then
      return n.updateSocket s fun socket ↦ { socket with isAlive := false }
    else return (n.cleanupSocket s socket.userId).updateSocket s Socket.terminate
  | .socketError s => do
    let socket ← n.sockets[s]?
    return n.cleanupSocket s socket.userId
  | .socketClose s => do
    let socket ← n.sockets[s]?
    return ((n.updateSocket s fun socket ↦ { socket with readyState := .closed }).observe
      (.closed s)).cleanupSocket s socket.userId
  | e => n.step e

theorem updateSocket_congr {f g : Socket → Socket}
    (h : ∀ socket, n.sockets[s]? = some socket → f socket = g socket) :
    n.updateSocket s f = n.updateSocket s g := by
  rw [updateSocket, updateSocket]
  have hmodify : n.sockets.modify s f = n.sockets.modify s g := by
    refine List.ext_getElem? fun i ↦ ?_
    rw [List.getElem?_modify, List.getElem?_modify]
    split
    · rename_i hs
      subst hs
      cases hget : n.sockets[s]? with
      | none => rfl
      | some socket => exact congrArg some (h socket hget)
    · rfl
  rw [hmodify]

/-- The order of events that `step` knows is one of them. -/
theorem stepAnyOrder_of_step {e : Event} (hstep : n.step e = some n') :
    n.stepAnyOrder e = some n' := by
  cases e with
  | heartbeat s =>
    simp only [step, Option.bind_eq_bind, Option.bind_eq_some_iff, Option.guard_eq_some'] at hstep
    obtain ⟨socket, hget, -, hopen, hstep⟩ := hstep
    rw [stepAnyOrder, hget, Option.bind_eq_bind, Option.bind_some]
    cases halive : socket.isAlive with
    | true =>
      rw [halive] at hstep
      exact hstep
    | false =>
      rw [halive] at hstep
      refine (congrArg some (updateSocket_congr fun socket' hget' ↦ ?_)).trans hstep
      rw [(cleanupSocket_frame n s socket.userId).1.sockets, hget] at hget'
      obtain rfl := Option.some.inj hget'
      rw [Socket.terminate, if_neg hopen]
  | socketError s =>
    simp only [step, Option.bind_eq_bind, Option.bind_eq_some_iff] at hstep
    obtain ⟨socket, hget, -, -, hstep⟩ := hstep
    rw [stepAnyOrder, hget]
    exact hstep
  | socketClose s =>
    simp only [step, Option.bind_eq_bind, Option.bind_eq_some_iff] at hstep
    obtain ⟨socket, hget, -, -, hstep⟩ := hstep
    rw [stepAnyOrder, hget]
    exact hstep
  | _ => exact hstep

theorem run_stepAnyOrder {es : List Event} (hrun : run step n es = some n') :
    run stepAnyOrder n es = some n' := by
  induction es generalizing n with
  | nil => exact hrun
  | cons e es ih =>
    obtain ⟨t, ht, hrest⟩ := run_cons_eq_some.mp hrun
    exact run_cons_eq_some.mpr ⟨t, stepAnyOrder_of_step ht, ih hrest⟩

/-! ## Cleaning up -/

theorem removeUserSocket_eq (n : Node) (s : SocketId) (userId : UserId) :
    n.removeUserSocket s userId =
      { n with userSockets := n.userSockets.removeItem userId s } := by
  rw [removeUserSocket, EsMap.removeItem]
  cases n.userSockets.get userId with
  | none => rfl
  | some sockets =>
    dsimp only
    split <;> rfl

theorem userSockets_removeSocketFromRoom (n : Node) (R : RoomId) (s : SocketId) :
    (n.removeSocketFromRoom R s).userSockets = n.userSockets := by
  rw [removeSocketFromRoom]
  split
  · rfl
  · split <;> rfl

theorem userSockets_cleanupSocket (n : Node) (s : SocketId) (userId : UserId) :
    (n.cleanupSocket s userId).userSockets = n.userSockets.removeItem userId s := by
  have hroom : ∀ (n : Node) (R : RoomId), (n.cleanupRoom s R).userSockets = n.userSockets := by
    intro n R
    rw [cleanupRoom]
    split
    · exact userSockets_removeSocketFromRoom n R s
    · rfl
  rw [cleanupSocket, foldl_frame userSockets hroom, removeUserSocket_eq]
  rfl

/-- A socket that is in no room is not cleaned up. -/
theorem foldl_cleanupRoom_eq_self (h : ∀ R, s ∉ n.socketsOf R) (l : List RoomId) :
    l.foldl (fun n R ↦ n.cleanupRoom s R) n = n := by
  induction l with
  | nil => rfl
  | cons R l ih => rw [List.foldl_cons, cleanupRoom, if_neg (h R), ih]

/-- **A second cleanup does nothing**, but that it is logged. -/
theorem cleanupSocket_cleanupSocket (n : Node) (s : SocketId) (userId : UserId) :
    (n.cleanupSocket s userId).cleanupSocket s userId =
      (n.cleanupSocket s userId).observe (.cleaned s) := by
  have husers : (n.cleanupSocket s userId).userSockets.removeItem userId s =
      (n.cleanupSocket s userId).userSockets := by
    rw [userSockets_cleanupSocket, EsMap.removeItem_removeItem]
  have hself : ((n.cleanupSocket s userId).observe (.cleaned s)).removeUserSocket s userId =
      (n.cleanupSocket s userId).observe (.cleaned s) := by
    rw [removeUserSocket_eq]
    exact congrArg (fun users ↦
      { (n.cleanupSocket s userId).observe (.cleaned s) with userSockets := users }) husers
  have hgone : ∀ R, s ∉ ((n.cleanupSocket s userId).observe (.cleaned s)).socketsOf R :=
    fun R hs ↦ (mem_socketsOf_cleanupSocket (n := n).mp hs).2 rfl
  rw [cleanupSocket, hself]
  exact foldl_cleanupRoom_eq_self hgone _

/-- The loop of `cleanupSocket` as it is written: it reads the map anew for each round, while it
deletes entries from it. -/
theorem cleanupSocket_eq_visit (n : Node) (s : SocketId) (userId : UserId) :
    n.cleanupSocket s userId =
      let m := (n.observe (.cleaned s)).removeUserSocket s userId
      EsMap.visit roomSockets (fun n R ↦ n.cleanupRoom s R) (m.roomSockets.entries.length + 1) 0
        m := by
  have hbody : ∀ (n : Node) (R : RoomId), R ∈ n.roomSockets.keys →
      EsMap.SameBut R n.roomSockets (n.cleanupRoom s R).roomSockets := by
    intro n R hR
    rw [cleanupRoom]
    split
    · rw [removeSocketFromRoom]
      split
      · exact EsMap.SameBut.refl R _
      · split
        · exact EsMap.sameBut_delete _ R
        · exact EsMap.sameBut_set hR _
    · exact EsMap.SameBut.refl R _
  dsimp only
  rw [EsMap.visit_eq_foldl hbody (Nat.lt_succ_self _)]
  rfl

/-! ## What an event does to the registry -/

/-- The five ways an event changes the registry. -/
inductive Change (n : Node) (e : Event) (n' : Node) : Prop
  /-- Not at all; a handler that continues may make calls of its own. -/
  | kept (rooms : n'.roomSockets = n.roomSockets) (same : SameSockets n n')
      (calls : (∀ k, e ≠ .resume k) → n'.pg.calls.map Call.kind = n.pg.calls.map Call.kind)
  | connected (userId : UserId) (rooms : n'.roomSockets = n.roomSockets)
      (users : n'.userSockets = n.userSockets.insertItem userId n.sockets.length)
      (keys : n'.socketKeys = n.socketKeys ++ [(userId, false)]) (pg : n'.pg = n.pg)
  | joined (s : SocketId) (userId : UserId) (R : RoomId)
      (get : n.socketKeys[s]? = some (userId, false))
      (rooms : n'.roomSockets = n.roomSockets.insertItem R s) (same : SameSockets n n')
      (pg : n'.pg = n.pg)
  | left (s : SocketId) (R : RoomId) (rooms : n'.roomSockets = n.roomSockets.removeItem R s)
      (same : SameSockets n n') (pg : n'.pg = (n.removeSocketFromRoom R s).pg)
  | cleaned (s : SocketId) (userId : UserId) (closed closed' : Bool)
      (get : n.socketKeys[s]? = some (userId, closed)) (closes : closed = true → closed' = true)
      (rooms : n'.roomSockets = (n.cleanupSocket s userId).roomSockets)
      (users : n'.userSockets = n.userSockets.removeItem userId s)
      (keys : n'.socketKeys = n.socketKeys.set s (userId, closed'))
      (pg : n'.pg = (n.cleanupSocket s userId).pg)

theorem socketKeys_get {socket : Socket} (hget : n.sockets[s]? = some socket) :
    n.socketKeys[s]? = some socket.key := by
  rw [socketKeys, List.getElem?_map, hget, Option.map_some]

theorem socketKeys_updateSocket_set {f : Socket → Socket} {socket : Socket}
    (hget : n.sockets[s]? = some socket) :
    (n.updateSocket s f).socketKeys = n.socketKeys.set s (f socket).key := by
  change (n.sockets.modify s f).map Socket.key = _
  rw [Lists.modify_eq_set hget, List.map_set]
  rfl

/-- A cleanup looks at the registry and the LISTEN connection only. -/
theorem cleanupSocket_congr (hrooms : n'.roomSockets = n.roomSockets) (hpg : n'.pg = n.pg)
    (s : SocketId) (userId : UserId) :
    (n'.cleanupSocket s userId).roomSockets = (n.cleanupSocket s userId).roomSockets ∧
      (n'.cleanupSocket s userId).pg = (n.cleanupSocket s userId).pg := by
  have hremove : ∀ {n n' : Node} (R : RoomId), n'.roomSockets = n.roomSockets → n'.pg = n.pg →
      (n'.cleanupRoom s R).roomSockets = (n.cleanupRoom s R).roomSockets ∧
        (n'.cleanupRoom s R).pg = (n.cleanupRoom s R).pg := by
    intro n n' R hrooms hpg
    rw [cleanupRoom, cleanupRoom, socketsOf, socketsOf, hrooms]
    split
    · rw [roomSockets_removeSocketFromRoom, roomSockets_removeSocketFromRoom,
        removeSocketFromRoom_pg, removeSocketFromRoom_pg, empties, empties, hrooms, hpg]
      exact ⟨rfl, rfl⟩
    · exact ⟨hrooms, hpg⟩
  have hfold : ∀ (l : List RoomId) (n n' : Node), n'.roomSockets = n.roomSockets → n'.pg = n.pg →
      (l.foldl (fun n R ↦ n.cleanupRoom s R) n').roomSockets =
          (l.foldl (fun n R ↦ n.cleanupRoom s R) n).roomSockets ∧
        (l.foldl (fun n R ↦ n.cleanupRoom s R) n').pg =
          (l.foldl (fun n R ↦ n.cleanupRoom s R) n).pg := by
    intro l
    induction l with
    | nil => exact fun _ _ hrooms hpg ↦ ⟨hrooms, hpg⟩
    | cons R l ih =>
      intro n n' hrooms hpg
      obtain ⟨hrooms', hpg'⟩ := hremove R hrooms hpg
      exact ih _ _ hrooms' hpg'
  obtain ⟨hr, hp, -⟩ := removeUserSocket_frame (n.observe (.cleaned s)) s userId
  obtain ⟨hr', hp', -⟩ := removeUserSocket_frame (n'.observe (.cleaned s)) s userId
  have hmaps := hr'.trans (hrooms.trans hr.symm)
  rw [cleanupSocket, cleanupSocket, hmaps]
  exact hfold _ _ _ hmaps (hp'.trans (hpg.trans hp.symm))

theorem change_of_step {e : Event} (hstep : n.stepAnyOrder e = some n') : Change n e n' := by
  have hquiet : e.quiet = true → n.step e = some n' → Change n e n' := by
    intro he hstep
    refine .kept (quiet_of_step he hstep).rooms (sameSockets_of_quiet_step he hstep) fun _ ↦ ?_
    obtain ⟨ds, hrun, hds⟩ := pg_of_quiet_step he hstep
    refine guarded_invariant (fun p ↦ p.calls.map Call.kind = n.pg.calls.map Call.kind) ?_ rfl
      (guarded_of_forall (Passes e) hds _) hrun
    intro p d p' hp hd hstep'
    have hcalls : ∀ R, d ≠ .subscribe R ∧ d ≠ .unsubscribe R := fun R ↦ by
      rcases hd with ⟨note, rfl⟩ | ⟨c, rfl⟩ | ⟨-, hinternal⟩
      · exact ⟨nofun, nofun⟩
      · exact ⟨nofun, nofun⟩
      · constructor <;> rintro rfl <;> cases hinternal
    exact (PostgresService.kinds_of_step hstep' hcalls).trans hp
  cases e with
  | connect userId =>
    simp only [stepAnyOrder, step, Option.dite_none_right_eq_some, Option.some.injEq] at hstep
    obtain ⟨-, rfl⟩ := hstep
    exact .connected userId rfl rfl List.map_append rfl
  | frame s frame =>
    obtain ⟨socket, hget, hopen, hreceived⟩ := received_of_step hstep
    have husers : n'.userSockets = (n.updateRooms n.tasks.length s frame).userSockets := by
      simp only [stepAnyOrder, step, Option.bind_eq_bind, Option.bind_eq_some_iff] at hstep
      obtain ⟨socket', -, -, -, hstep⟩ := hstep
      cases hstep
      exact (sameSockets_takeTurn _ _ _ _).users
    have hkey : n.socketKeys[s]? = some (socket.userId, false) := by
      rw [socketKeys_get hget, Socket.key, decide_eq_false hopen]
    cases frame with
    | joinRoom payload =>
      exact .joined s socket.userId payload.roomId hkey hreceived.rooms
        (.of_eq husers hreceived.sockets) hreceived.pg
    | leaveRoom payload =>
      refine .left s payload.roomId (hreceived.rooms.trans ?_)
        (.of_eq (husers.trans ?_) hreceived.sockets) (hreceived.pg.trans ?_)
      · exact roomSockets_removeSocketFromRoom _ _ _
      · exact userSockets_removeSocketFromRoom _ _ _
      · exact (removeSocketFromRoom_pg (n.observe _) payload.roomId s).trans
          (removeSocketFromRoom_pg n payload.roomId s).symm
    | _ =>
      exact .kept hreceived.rooms (.of_eq husers hreceived.sockets) fun _ ↦
        congrArg (List.map Call.kind) (congrArg PostgresService.calls hreceived.pg)
  | resume k =>
    obtain ⟨task, stage, settled, hresumed⟩ := resumed_of_step hstep
    obtain ⟨hsame, hrooms, -⟩ := observeCheck_frame n k stage settled
    have husers : n'.userSockets = n.userSockets := by
      simp only [stepAnyOrder, step, Option.bind_eq_bind, Option.bind_eq_some_iff] at hstep
      obtain ⟨task', -, hstep⟩ := hstep
      split at hstep
      · simp only [Option.bind_eq_some_iff] at hstep
        obtain ⟨settled', -, hstep⟩ := hstep
        cases hstep
        exact ((sameSockets_observeCheck n k _ _).trans (sameSockets_takeTurn _ _ _ _)).users
      · cases hstep
    exact .kept (hresumed.turned.rooms.trans hrooms)
      (.of_eq husers (hresumed.turned.sockets.trans hsame.sockets)) fun he ↦ absurd rfl (he k)
  | heartbeat s =>
    simp only [stepAnyOrder, Option.bind_eq_bind, Option.bind_eq_some_iff] at hstep
    obtain ⟨socket, hget, hstep⟩ := hstep
    split at hstep
    · cases hstep
      exact .kept rfl ⟨rfl, socketKeys_updateSocket fun _ _ ↦ rfl⟩ fun _ ↦ rfl
    · cases hstep
      have hsockets := (cleanupSocket_frame n s socket.userId).1.sockets
      have hget' : (n.cleanupSocket s socket.userId).sockets[s]? = some socket := by
        rw [hsockets, hget]
      refine .cleaned s socket.userId _ socket.terminate.key.2 (socketKeys_get hget) ?_ rfl
        (userSockets_cleanupSocket n s socket.userId) ?_ rfl
      · intro hclosed
        rw [Socket.key, Socket.terminate, if_pos (of_decide_eq_true hclosed)]
        rfl
      · rw [socketKeys_updateSocket_set hget', socketKeys, hsockets]
        rfl
  | socketError s =>
    simp only [stepAnyOrder, Option.bind_eq_bind, Option.bind_eq_some_iff] at hstep
    obtain ⟨socket, hget, hstep⟩ := hstep
    cases hstep
    refine .cleaned s socket.userId _ _ (socketKeys_get hget) id rfl
      (userSockets_cleanupSocket n s socket.userId) ?_ rfl
    rw [socketKeys, (cleanupSocket_frame n s socket.userId).1.sockets]
    obtain ⟨hlt, hkey⟩ := List.getElem?_eq_some_iff.mp (socketKeys_get hget)
    exact (hkey ▸ List.set_getElem_self hlt).symm
  | socketClose s =>
    simp only [stepAnyOrder, Option.bind_eq_bind, Option.bind_eq_some_iff] at hstep
    obtain ⟨socket, hget, hstep⟩ := hstep
    cases hstep
    have hcongr := cleanupSocket_congr (n := n) (show ((n.updateSocket s fun socket ↦
      { socket with readyState := .closed }).observe (.closed s)).roomSockets = n.roomSockets
      from rfl) rfl s socket.userId
    obtain ⟨hrooms, hpg⟩ := hcongr
    refine .cleaned s socket.userId _ true (socketKeys_get hget) (fun _ ↦ rfl) hrooms
      (userSockets_cleanupSocket _ s socket.userId) ?_ hpg
    rw [socketKeys, (cleanupSocket_frame _ s socket.userId).1.sockets]
    exact socketKeys_updateSocket_set hget
  | _ => exact hquiet rfl hstep

/-! ## The invariant -/

/-- The socket is in no set of either map. -/
def Unregistered (n : Node) (s : SocketId) : Prop :=
  (∀ R, s ∉ n.roomSockets.itemsOf R) ∧ ∀ userId, s ∉ n.userSockets.itemsOf userId

/-- The registry is in order. -/
structure Registered (n : Node) : Prop where
  rooms : n.roomSockets.Occupied
  users : n.userSockets.Occupied
  owner : ∀ userId, ∀ s ∈ n.userSockets.itemsOf userId, n.socketUsers[s]? = some userId
  closed : ∀ s userId, n.socketKeys[s]? = some (userId, true) → n.Unregistered s

theorem registered_start (nodeId : JsString) : Registered (start nodeId) :=
  ⟨EsMap.occupied_empty, EsMap.occupied_empty, fun _ _ h ↦ absurd h EsSet.not_mem_empty, nofun⟩

theorem socketUsers_of_key {closed : Bool} (h : n.socketKeys[s]? = some (userId, closed)) :
    n.socketUsers[s]? = some userId := by
  rw [socketUsers_eq, List.getElem?_map, h, Option.map_some]

/-- **Step lemma.** -/
theorem Registered.step (h : n.Registered) {e : Event} (hstep : n.stepAnyOrder e = some n') :
    n'.Registered := by
  cases change_of_step hstep with
  | kept rooms same calls =>
    refine ⟨rooms ▸ h.rooms, same.users ▸ h.users, ?_, ?_⟩
    · rw [same.users, same.socketUsers]
      exact h.owner
    · rw [same.keys]
      intro s userId hclosed
      rw [Unregistered, rooms, same.users]
      exact h.closed s userId hclosed
  | connected userId rooms users keys pg =>
    have hlength : n.socketKeys.length = n.sockets.length := List.length_map _
    refine ⟨rooms ▸ h.rooms, users ▸ h.users.insertItem, ?_, ?_⟩
    · intro userId' s hs
      rw [socketUsers_eq, keys, List.map_append, ← socketUsers_eq]
      rw [users, EsMap.mem_itemsOf_insertItem] at hs
      rcases hs with ⟨rfl, rfl⟩ | hs
      · refine Lists.getElem?_concat_eq_some.mpr (Or.inr ⟨?_, rfl⟩)
        rw [socketUsers, List.length_map]
      · exact Lists.getElem?_concat_eq_some.mpr (Or.inl (h.owner userId' s hs))
    · intro s userId' hclosed
      rw [keys] at hclosed
      rcases Lists.getElem?_concat_eq_some.mp hclosed with hclosed | ⟨-, hnew⟩
      · obtain ⟨hrooms, husers⟩ := h.closed s userId' hclosed
        rw [Unregistered, rooms, users]
        refine ⟨hrooms, fun userId'' hs ↦ ?_⟩
        rcases EsMap.mem_itemsOf_insertItem.mp hs with ⟨-, rfl⟩ | hs
        · exact absurd (List.getElem?_eq_some_iff.mp hclosed).1 (by rw [hlength]; exact lt_irrefl _)
        · exact husers userId'' hs
      · cases hnew
  | joined s userId R get rooms same pg =>
    refine ⟨rooms ▸ h.rooms.insertItem, same.users ▸ h.users, ?_, ?_⟩
    · rw [same.users, same.socketUsers]
      exact h.owner
    · rw [same.keys]
      intro s' userId' hclosed
      obtain ⟨hrooms, husers⟩ := h.closed s' userId' hclosed
      rw [Unregistered, rooms, same.users]
      refine ⟨fun R' hs ↦ ?_, husers⟩
      -- The socket that joins has not closed.
      rcases EsMap.mem_itemsOf_insertItem.mp hs with ⟨-, rfl⟩ | hs
      · rw [get] at hclosed
        cases hclosed
      · exact hrooms R' hs
  | left s R rooms same pg =>
    refine ⟨rooms ▸ h.rooms.removeItem, same.users ▸ h.users, ?_, ?_⟩
    · rw [same.users, same.socketUsers]
      exact h.owner
    · rw [same.keys]
      intro s' userId' hclosed
      obtain ⟨hrooms, husers⟩ := h.closed s' userId' hclosed
      rw [Unregistered, rooms, same.users]
      exact ⟨fun R' hs ↦ hrooms R' (EsMap.mem_itemsOf_removeItem.mp hs).1, husers⟩
  | cleaned s userId closed closed' get closes rooms users keys pg =>
    have hmem : ∀ {s' R'}, s' ∈ n'.roomSockets.itemsOf R' ↔
        s' ∈ n.roomSockets.itemsOf R' ∧ s' ≠ s := by
      rw [rooms]
      exact mem_socketsOf_cleanupSocket
    have husers : n'.socketUsers = n.socketUsers := by
      rw [socketUsers_eq, keys, socketUsers_eq]
      exact Lists.map_set_eq get rfl
    refine ⟨rooms ▸ Occupied.cleanupSocket h.rooms s userId, users ▸ h.users.removeItem, ?_, ?_⟩
    · rw [users, husers]
      exact fun userId' s' hs ↦ h.owner userId' s' (EsMap.mem_itemsOf_removeItem.mp hs).1
    · intro s' userId' hclosed
      rw [Unregistered, users]
      by_cases hs : s' = s
      · -- The socket was registered for its own user only.
        subst hs
        refine ⟨fun R' hmem' ↦ (hmem.mp hmem').2 rfl, fun userId'' hmem' ↦ ?_⟩
        obtain ⟨hold, hother⟩ := EsMap.mem_itemsOf_removeItem.mp hmem'
        have howner := (h.owner userId'' s' hold).symm.trans (socketUsers_of_key get)
        exact hother ⟨Option.some.inj howner, rfl⟩
      · rw [keys, List.getElem?_set_ne (Ne.symm hs)] at hclosed
        obtain ⟨hrooms, hnone⟩ := h.closed s' userId' hclosed
        exact ⟨fun R' hmem' ↦ hrooms R' (hmem.mp hmem').1,
          fun userId'' hmem' ↦ hnone userId'' (EsMap.mem_itemsOf_removeItem.mp hmem').1⟩

theorem registered_of_run {nodeId : JsString} {es : List Event}
    (hrun : run stepAnyOrder (start nodeId) es = some n) : n.Registered :=
  run_invariant Registered (fun h hstep ↦ h.step hstep) (registered_start nodeId) hrun

/-- A socket that has closed stays closed. -/
theorem closed_of_step {e : Event} (hstep : n.stepAnyOrder e = some n')
    (h : n.socketKeys[s]? = some (userId, true)) : n'.socketKeys[s]? = some (userId, true) := by
  cases change_of_step hstep with
  | kept rooms same calls => rw [same.keys, h]
  | connected userId' rooms users keys pg =>
    rw [keys]
    exact Lists.getElem?_concat_eq_some.mpr (Or.inl h)
  | joined s' userId' R get rooms same pg => rw [same.keys, h]
  | left s' R rooms same pg => rw [same.keys, h]
  | cleaned s' userId' closed closed' get closes rooms users keys pg =>
    rw [keys]
    by_cases hs : s' = s
    · subst hs
      obtain ⟨rfl, rfl⟩ := Prod.mk.inj (Option.some.inj (get.symm.trans h))
      rw [List.getElem?_set_self (List.getElem?_eq_some_iff.mp h).1, closes rfl]
    · rw [List.getElem?_set_ne hs, h]

theorem closed_of_close (hstep : n.stepAnyOrder (.socketClose s) = some n') :
    ∃ userId, n'.socketKeys[s]? = some (userId, true) := by
  simp only [stepAnyOrder, Option.bind_eq_bind, Option.bind_eq_some_iff] at hstep
  obtain ⟨socket, hget, hstep⟩ := hstep
  cases hstep
  refine ⟨socket.userId, ?_⟩
  rw [socketKeys, (cleanupSocket_frame _ s socket.userId).1.sockets]
  refine (congrArg (·[s]?) (socketKeys_updateSocket_set hget)).trans ?_
  exact List.getElem?_set_self (List.getElem?_eq_some_iff.mp (socketKeys_get hget)).1

theorem closed_of_run {nodeId : JsString} {es : List Event}
    (hrun : run stepAnyOrder (start nodeId) es = some n) (hs : .socketClose s ∈ es) :
    ∃ userId, n.socketKeys[s]? = some (userId, true) := by
  obtain ⟨pre, post, rfl⟩ := List.append_of_mem hs
  obtain ⟨m, -, hrest⟩ := run_append_eq_some.mp hrun
  obtain ⟨m', hclose, hrest⟩ := run_cons_eq_some.mp hrest
  obtain ⟨userId, hclosed⟩ := closed_of_close hclose
  exact ⟨userId, run_invariant (fun n ↦ n.socketKeys[s]? = some (userId, true))
    (fun h hstep ↦ closed_of_step hstep h) hclosed hrest⟩

/-! ## Rooms that become empty -/

theorem vacates_iff_of_remove (h : n.Registered)
    (hmem : ∀ s', s' ∈ n'.socketsOf R ↔ s' ∈ n.socketsOf R ∧ s' ≠ s) :
    (¬ n.Vacant R ∧ n'.Vacant R) ↔ s ∈ n.socketsOf R ∧ n.empties R s = true := by
  rw [Occupied.empties_iff h.rooms, vacant_iff, vacant_iff]
  constructor
  · rintro ⟨hbefore, hafter⟩
    have hlast : ∀ s' ∈ n.socketsOf R, s' = s := fun s' hs' ↦
      by_contra fun hne ↦ hafter s' ((hmem s').mpr ⟨hs', hne⟩)
    obtain ⟨s', hs'⟩ := not_forall_not.mp hbefore
    obtain rfl := hlast s' hs'
    exact ⟨hs', hs', hlast⟩
  · rintro ⟨hs, -, hlast⟩
    refine ⟨fun hnone ↦ hnone s hs, fun s' hs' ↦ ?_⟩
    obtain ⟨hold, hne⟩ := (hmem s').mp hs'
    exact hne (hlast s' hold)

/-- **The calls the registry makes**: one for each room that an event leaves without sockets. -/
theorem unsubscribeCalls_of_step (h : n.Registered) {e : Event}
    (hstep : n.stepAnyOrder e = some n') (he : ∀ k, e ≠ .resume k) (R : RoomId) :
    n'.pg.unsubscribeCalls R =
      n.pg.unsubscribeCalls R + if ¬ n.Vacant R ∧ n'.Vacant R then 1 else 0 := by
  have hsame : n'.pg.calls.map Call.kind = n.pg.calls.map Call.kind →
      (n'.Vacant R → n.Vacant R) → n'.pg.unsubscribeCalls R =
        n.pg.unsubscribeCalls R + if ¬ n.Vacant R ∧ n'.Vacant R then 1 else 0 := by
    intro hcalls hvacant
    rw [if_neg fun hvacates ↦ hvacates.1 (hvacant hvacates.2), Nat.add_zero,
      PostgresService.unsubscribeCalls, hcalls, PostgresService.unsubscribeCalls]
  cases change_of_step hstep with
  | kept rooms same calls => exact hsame (calls he) (vacant_congr rooms).mp
  | connected userId rooms users keys pg => exact hsame (by rw [pg]) (vacant_congr rooms).mp
  | joined s userId R' get rooms same pg =>
    refine hsame (by rw [pg]) fun hvacant ↦ vacant_iff.mpr fun s' hs' ↦ ?_
    refine vacant_iff.mp hvacant s' ?_
    change s' ∈ n'.roomSockets.itemsOf R
    rw [rooms]
    exact EsMap.mem_itemsOf_insertItem.mpr (Or.inr hs')
  | left s R' rooms same pg =>
    rw [pg, value_removeSocketFromRoom (g := fun pg ↦ pg.unsubscribeCalls R) (f := (· + 1))
      fun pg ↦ pg.unsubscribeCalls_unsubscribe R]
    have hmem : ∀ s', s' ∈ n'.socketsOf R ↔ s' ∈ n.socketsOf R ∧ ¬ (R = R' ∧ s' = s) := fun s' ↦ by
      change s' ∈ n'.roomSockets.itemsOf R ↔ _
      rw [rooms]
      exact EsMap.mem_itemsOf_removeItem
    by_cases hR : R = R'
    · subst hR
      simp only [true_and] at hmem ⊢
      have hvacates := (vacates_iff_of_remove h hmem).trans
        (and_iff_right_of_imp fun hempties ↦ ((Occupied.empties_iff h.rooms).mp hempties).1)
      rw [if_congr hvacates rfl rfl]
      split <;> rfl
    · simp only [hR, false_and, not_false_eq_true, and_true] at hmem ⊢
      have hvacant : n'.Vacant R → n.Vacant R := fun hvacant ↦ vacant_iff.mpr fun s' hs' ↦
        vacant_iff.mp hvacant s' ((hmem s').mpr hs')
      rw [if_neg id, if_neg fun hvacates ↦ hvacates.1 (hvacant hvacates.2), Nat.add_zero]
  | cleaned s userId closed closed' get closes rooms users keys pg =>
    rw [pg, value_cleanupSocket (g := fun pg ↦ pg.unsubscribeCalls R) (f := (· + 1))
      fun pg ↦ pg.unsubscribeCalls_unsubscribe R]
    have hmem : ∀ s', s' ∈ n'.socketsOf R ↔ s' ∈ n.socketsOf R ∧ s' ≠ s := fun s' ↦ by
      change s' ∈ n'.roomSockets.itemsOf R ↔ _
      rw [rooms]
      exact mem_socketsOf_cleanupSocket
    rw [if_congr (vacates_iff_of_remove h hmem) rfl rfl]
    split <;> rfl

/-! ## The registry is in order -/

/-- **The registry of sockets.** In every state that events in any order lead to, no set is empty
and sockets are registered for their users; a socket that has closed is registered nowhere; a
cleanup concerns no other socket, and a second one does nothing; and a step that is not the
continuation of a handler calls `unsubscribeFromRoomChannel` for a room once if it leaves the room
without sockets, and not at all if it does not. A continuation changes no room. -/
theorem registry_integrity {nodeId : JsString} {es : List Event}
    (hrun : run stepAnyOrder (start nodeId) es = some n) :
    (∀ R sockets, n.roomSockets.get R = some sockets → sockets.size ≠ 0) ∧
      (∀ userId sockets, n.userSockets.get userId = some sockets →
        sockets.size ≠ 0 ∧ ∀ s ∈ sockets, n.sockets[s]?.map Socket.userId = some userId) ∧
      (∀ s, .socketClose s ∈ es → n.Unregistered s) ∧
      (∀ s userId, (∀ s' ≠ s,
          (∀ R, s' ∈ (n.cleanupSocket s userId).roomSockets.itemsOf R ↔
            s' ∈ n.roomSockets.itemsOf R) ∧
          ∀ userId', s' ∈ (n.cleanupSocket s userId).userSockets.itemsOf userId' ↔
            s' ∈ n.userSockets.itemsOf userId') ∧
        (n.cleanupSocket s userId).cleanupSocket s userId =
          (n.cleanupSocket s userId).observe (.cleaned s)) ∧
      ∀ e n', n.stepAnyOrder e = some n' →
        ((∀ k, e ≠ .resume k) → ∀ R, n'.pg.unsubscribeCalls R =
          n.pg.unsubscribeCalls R + if ¬ n.Vacant R ∧ n'.Vacant R then 1 else 0) ∧
        ∀ k, e = .resume k → n'.roomSockets = n.roomSockets := by
  have h := registered_of_run hrun
  refine ⟨h.rooms, fun userId sockets hget ↦ ⟨h.users userId sockets hget, fun s hs ↦ ?_⟩,
    fun s hs ↦ ?_, fun s userId ↦ ⟨fun s' hs' ↦ ⟨fun R ↦ ?_, fun userId' ↦ ?_⟩,
      cleanupSocket_cleanupSocket n s userId⟩, fun e n' hstep ↦ ⟨fun he R ↦ ?_, ?_⟩⟩
  · rw [← List.getElem?_map]
    exact h.owner userId s (EsMap.itemsOf_of_get_eq_some hget ▸ hs)
  · obtain ⟨userId, hclosed⟩ := closed_of_run hrun hs
    exact h.closed s userId hclosed
  · exact mem_socketsOf_cleanupSocket.trans (and_iff_left hs')
  · rw [userSockets_cleanupSocket, EsMap.mem_itemsOf_removeItem]
    exact and_iff_left fun hsame ↦ hs' hsame.2
  · exact unsubscribeCalls_of_step h hstep he R
  · rintro k rfl
    obtain ⟨task, stage, settled, hresumed⟩ := resumed_of_step hstep
    exact hresumed.turned.rooms.trans (observeCheck_frame n k stage settled).2.1

/-- A socket fails, joins the room again all the same, and closes; it fails once more after that. -/
theorem registry_integrity_failsAndCloses :
    ∃ n, run stepAnyOrder (start []) [.connect [0x61],
        .frame 0 (.joinRoom ⟨⟨Uuid.nil.text, by decide⟩, none, by decide⟩), .socketError 0,
        .frame 0 (.joinRoom ⟨⟨Uuid.nil.text, by decide⟩, none, by decide⟩), .socketClose 0,
        .socketError 0, .heartbeat 0, .heartbeat 0] = some n ∧
      n.pg.unsubscribeCalls Uuid.nil.text = 2 ∧ n.Unregistered 0 := by
  refine exists_run_of_any (fun n : Node ↦ n.pg.unsubscribeCalls Uuid.nil.text = 2) (by decide) ?_
  exact fun n hrun hcalls ↦ ⟨hcalls, (registry_integrity hrun).2.2.1 0 (by simp)⟩

end Node

end PostgresChat
