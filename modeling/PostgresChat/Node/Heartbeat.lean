import PostgresChat.Lib.PastTrace
import PostgresChat.Node.Registry

/-!
# The heartbeat

Every thirty seconds the heartbeat comes to each client: it terminates a socket that has not
answered the ping before, and pings the others. What becomes of a socket depends on the events of
that socket alone, so its state after a run is a fold over the run, and whether it is still open can
be read off the order in which heartbeats, pongs and closings have come.

## Contents

* `Event.onSocket`: what an event does to a socket, and `sockets_of_step`, that a step does that.
* `Unanswered`: a heartbeat of the socket has come, and no pong since.
* `isOpen_iff_answered`: the sockets that are open after a run.
-/

namespace PostgresChat

open Execution PastTrace

/-- What an event does to socket `s`. -/
def Event.onSocket (e : Event) (s : SocketId) (socket : Socket) : Socket :=
  match e with
  | .heartbeat s' =>
    if s' = s then
      if socket.isAlive then { socket with isAlive := false }
      else { socket with readyState := .closing }
    else socket
  | .pong s' => if s' = s then { socket with isAlive := true } else socket
  | .socketClosing s' => if s' = s then { socket with readyState := .closing } else socket
  | .socketClose s' => if s' = s then { socket with readyState := .closed } else socket
  | .buffered s' bytes => if s' = s then { socket with bufferedAmount := bytes } else socket
  | _ => socket

namespace Node

variable {n n' : Node} {s : SocketId} {socket : Socket} {es : List Event}

/-! ## One socket -/

theorem sockets_withDb (n : Node) (db : Db) (notes : List Notification) :
    (n.withDb db notes).sockets = n.sockets :=
  foldl_frame sockets (f := notify) (fun _ _ ↦ rfl) notes { n with db := db }

theorem sockets_runQuery (n : Node) (k : ℕ) (task : Task) (stage : Stage) (q : Query)
    (fate : Fate) : (n.runQuery k task stage q fate).sockets = n.sockets := by
  unfold Node.runQuery
  split
  · exact sockets_withDb n _ _
  · exact sockets_withDb n _ _
  · rfl

theorem sockets_beginInsert (n : Node) (k : ℕ) (task : Task) (roomId : RoomId)
    (content : JsString) : (n.beginInsert k task roomId content).sockets = n.sockets := by
  rw [Node.beginInsert]
  split
  · exact sockets_withDb n _ _
  · rfl

theorem getElem?_updateSocket (n : Node) (s s' : SocketId) (f : Socket → Socket) :
    (n.updateSocket s' f).sockets[s]? =
      n.sockets[s]?.map fun socket ↦ if s' = s then f socket else socket :=
  List.getElem?_modify f s' n.sockets s

/-- A socket that is modified where the event modifies it. -/
theorem getElem?_updateSocket_of_eq {e : Event} {s' : SocketId} {f : Socket → Socket}
    (hget : n.sockets[s]? = some socket)
    (he : e.onSocket s socket = if s' = s then f socket else socket) :
    (n.updateSocket s' f).sockets[s]? = some (e.onSocket s socket) := by
  rw [getElem?_updateSocket, hget, Option.map_some, he]

/-- **Step lemma.** A step does to a socket what its event does. -/
theorem sockets_of_step {e : Event} (hstep : n.step e = some n')
    (hget : n.sockets[s]? = some socket) : n'.sockets[s]? = some (e.onSocket s socket) := by
  have hsame : n'.sockets = n.sockets → e.onSocket s socket = socket →
      n'.sockets[s]? = some (e.onSocket s socket) := fun h he ↦ by rw [h, hget, he]
  cases e with
  | connect userId =>
    simp only [step, Option.dite_none_right_eq_some, Option.some.injEq] at hstep
    obtain ⟨hu, rfl⟩ := hstep
    exact (List.getElem?_append_left (List.getElem?_eq_some_iff.mp hget).1).trans hget
  | frame s' frame =>
    obtain ⟨socket', -, -, hreceived⟩ := received_of_step hstep
    exact hsame hreceived.sockets rfl
  | resume k =>
    obtain ⟨task, stage, settled, hresumed⟩ := resumed_of_step hstep
    exact hsame
      (hresumed.turned.sockets.trans (observeCheck_frame n k stage settled).1.sockets) rfl
  | runQuery k fate =>
    simp only [step, Option.bind_eq_bind, Option.bind_eq_some_iff] at hstep
    obtain ⟨task, -, hstep⟩ := hstep
    split at hstep
    · cases hstep
    · split at hstep
      · obtain rfl := Option.some.inj hstep
        exact hsame (sockets_runQuery n k task _ _ fate) rfl
      · cases hstep
    · cases hstep
  | beginInsert k =>
    simp only [step, Option.bind_eq_bind, Option.bind_eq_some_iff] at hstep
    obtain ⟨task, -, hstep⟩ := hstep
    split at hstep
    · obtain rfl := Option.some.inj hstep
      exact hsame (sockets_beginInsert n k task _ _) rfl
    · cases hstep
  | insertSettles k lost =>
    simp only [step, Option.bind_eq_bind, Option.bind_eq_some_iff] at hstep
    obtain ⟨task, -, hstep⟩ := hstep
    split at hstep
    · simp only [Option.bind_eq_some_iff] at hstep
      obtain ⟨ins, -, -, -, hstep⟩ := hstep
      obtain rfl := Option.some.inj hstep
      exact hsame rfl rfl
    · cases hstep
  | db d =>
    simp only [step, Option.bind_eq_bind, Option.bind_eq_some_iff] at hstep
    obtain ⟨⟨db, notes⟩, -, hstep⟩ := hstep
    obtain rfl := Option.some.inj hstep
    exact hsame (sockets_withDb n db notes) rfl
  | pg d =>
    simp only [step, Option.bind_eq_bind, Option.bind_eq_some_iff] at hstep
    obtain ⟨-, -, pg, -, hstep⟩ := hstep
    obtain rfl := Option.some.inj hstep
    exact hsame rfl rfl
  | deliver c =>
    simp only [step, Option.bind_eq_bind, Option.bind_eq_some_iff] at hstep
    obtain ⟨pg, -, hstep⟩ := hstep
    split at hstep
    · rename_i note _
      obtain rfl := Option.some.inj hstep
      exact hsame (Outputs.onNotification (S := fun _ ↦ True) fun _ _ ↦ trivial).sockets rfl
    · obtain rfl := Option.some.inj hstep
      exact hsame rfl rfl
  | flush =>
    simp only [step, Option.ite_none_right_eq_some, Option.some.injEq] at hstep
    obtain ⟨-, rfl⟩ := hstep
    exact hsame (Outputs.flushRoomMessageBatches (S := fun _ ↦ True) fun _ _ ↦ trivial).sockets rfl
  | immediate =>
    simp only [step] at hstep
    split at hstep
    · cases hstep
    · obtain rfl := Option.some.inj hstep
      exact hsame (Outputs.sendToAll (S := fun _ ↦ True) _ _).sockets rfl
  | heartbeat s' =>
    simp only [step, Option.bind_eq_bind, Option.bind_eq_some_iff] at hstep
    obtain ⟨socket', hget', -, -, hstep⟩ := hstep
    -- whether the heartbeat terminates depends on the socket it comes to
    have halive : s' = s → socket'.isAlive = socket.isAlive := by
      rintro rfl
      rw [Option.some.inj (hget'.symm.trans hget)]
    split at hstep
    · rename_i hpings
      obtain rfl := Option.some.inj hstep
      refine getElem?_updateSocket_of_eq hget (ite_congr rfl (fun hs ↦ ?_) fun _ ↦ rfl)
      exact if_pos (halive hs ▸ hpings)
    · rename_i hterminates
      obtain rfl := Option.some.inj hstep
      have hcleaned : (n.cleanupSocket s' socket'.userId).sockets[s]? = some socket := by
        rw [(cleanupSocket_frame n s' socket'.userId).1.sockets, hget]
      refine getElem?_updateSocket_of_eq hcleaned (ite_congr rfl (fun hs ↦ ?_) fun _ ↦ rfl)
      exact if_neg (halive hs ▸ hterminates)
  | pong s' =>
    obtain rfl := Option.some.inj hstep
    exact getElem?_updateSocket_of_eq hget rfl
  | socketError s' =>
    simp only [step, Option.bind_eq_bind, Option.bind_eq_some_iff] at hstep
    obtain ⟨socket', -, -, -, hstep⟩ := hstep
    obtain rfl := Option.some.inj hstep
    exact hsame (cleanupSocket_frame n s' socket'.userId).1.sockets rfl
  | socketClosing s' =>
    simp only [step, Option.bind_eq_bind, Option.bind_eq_some_iff] at hstep
    obtain ⟨socket', -, -, -, hstep⟩ := hstep
    obtain rfl := Option.some.inj hstep
    exact getElem?_updateSocket_of_eq hget rfl
  | socketClose s' =>
    simp only [step, Option.bind_eq_bind, Option.bind_eq_some_iff] at hstep
    obtain ⟨socket', -, -, -, hstep⟩ := hstep
    obtain rfl := Option.some.inj hstep
    rw [(cleanupSocket_frame _ s' socket'.userId).1.sockets]
    exact getElem?_updateSocket_of_eq (n := n) hget rfl
  | buffered s' bytes =>
    obtain rfl := Option.some.inj hstep
    exact getElem?_updateSocket_of_eq hget rfl
  | destroyChat =>
    obtain rfl := Option.some.inj hstep
    exact hsame rfl rfl

/-- A socket that connects is alive and open. -/
theorem connected_of_step {e : Event} (hstep : n.step e = some n') (hnone : n.sockets[s]? = none)
    (hget : n'.sockets[s]? = some socket) :
    socket.isAlive = true ∧ socket.readyState = .opened := by
  have hlt : n'.sockets.length ≠ n.sockets.length := by
    intro hlength
    have hs := (List.getElem?_eq_some_iff.mp hget).1
    exact absurd (List.getElem?_eq_none_iff.mp hnone) (by omega)
  cases stepped_of_step hstep with
  | connected userId hu =>
    rcases Lists.getElem?_concat_eq_some.mp hget with hold | ⟨-, rfl⟩
    · exact absurd (hnone.symm.trans hold) nofun
    · exact ⟨rfl, rfl⟩
  | received s' frame socket' _ _ hreceived =>
    exact absurd (congrArg List.length hreceived.sockets) hlt
  | resumed k task stage settled _ hresumed =>
    refine absurd (congrArg List.length ?_) hlt
    exact hresumed.turned.sockets.trans (observeCheck_frame n k stage settled).1.sockets
  | marked _ s' _ _ hmarked => exact absurd hmarked.quiet.length hlt
  | cleaned _ s' _ _ _ hcleaned => exact absurd hcleaned.length hlt
  | quiet _ _ _ hquiet => exact absurd hquiet.length hlt

/-! ## Pings and pongs -/

/-- A heartbeat has come to the socket, and no pong of it since. -/
def Unanswered (s : SocketId) : List Event → Prop := Since (· = .heartbeat s) (· = .pong s)

instance (s : SocketId) : DecidablePred (· = Event.heartbeat s)
  | .heartbeat s' => decidable_of_iff _ (iff_of_eq (Event.heartbeat.injEq s' s)).symm
  | .connect _ | .frame _ _ | .runQuery _ _ | .beginInsert _ | .insertSettles _ _ | .db _
  | .resume _ | .pg _ | .deliver _ | .flush | .immediate | .pong _ | .socketError _
  | .socketClosing _ | .socketClose _ | .buffered _ _ | .destroyChat => isFalse Event.noConfusion

instance (s : SocketId) : DecidablePred (· = Event.pong s)
  | .pong s' => decidable_of_iff _ (iff_of_eq (Event.pong.injEq s' s)).symm
  | .connect _ | .frame _ _ | .runQuery _ _ | .beginInsert _ | .insertSettles _ _ | .db _
  | .resume _ | .pg _ | .deliver _ | .flush | .immediate | .heartbeat _ | .socketError _
  | .socketClosing _ | .socketClose _ | .buffered _ _ | .destroyChat => isFalse Event.noConfusion

instance (s : SocketId) (es : List Event) : Decidable (Unanswered s es) :=
  decidableSince es

/-- The event does not close the socket: the client does not, and no second heartbeat comes before
the answer to the first. -/
def SparesSocket (s : SocketId) (pre : List Event) (e : Event) : Prop :=
  e ≠ .socketClosing s ∧ e ≠ .socketClose s ∧ (e = .heartbeat s → ¬ Unanswered s pre)

theorem isAlive_onSocket (e : Event) :
    (e.onSocket s socket).isAlive = false ↔
      e = .heartbeat s ∨ socket.isAlive = false ∧ e ≠ .pong s := by
  unfold Event.onSocket
  split
  · rename_i s'
    by_cases hs : s' = s
    · rw [if_pos hs, hs]
      split
      · simp
      · rename_i halive
        simpa using halive
    · simp [hs]
  · rename_i s'
    by_cases hs : s' = s <;> simp [hs]
  · split <;> simp
  · split <;> simp
  · split <;> simp
  · rename_i hheartbeat hpong _ _ _
    rw [or_iff_right (hheartbeat s), and_iff_left (hpong s)]

theorem opened_onSocket (e : Event) :
    (e.onSocket s socket).readyState = .opened ↔
      socket.readyState = .opened ∧ e ≠ .socketClosing s ∧ e ≠ .socketClose s ∧
        (e = .heartbeat s → socket.isAlive = true) := by
  unfold Event.onSocket
  split
  · rename_i s'
    by_cases hs : s' = s
    · rw [if_pos hs, hs]
      split
      · rename_i halive
        simp [halive]
      · rename_i halive
        simp [halive]
    · simp [hs]
  · split <;> simp
  · rename_i s'
    by_cases hs : s' = s <;> simp [hs]
  · rename_i s'
    by_cases hs : s' = s <;> simp [hs]
  · split <;> simp
  · rename_i hheartbeat _ hclosing hclose _
    exact (and_iff_left ⟨hclosing s, hclose s, fun h ↦ absurd h (hheartbeat s)⟩).symm

/-- What the events so far say of a socket. -/
structure Pinged (s : SocketId) (es : List Event) (n : Node) : Prop where
  /-- Before it connects nothing concerns it. -/
  absent : n.sockets[s]? = none →
    ∀ e ∈ es, e ≠ .heartbeat s ∧ e ≠ .socketClosing s ∧ e ≠ .socketClose s
  alive : ∀ socket, n.sockets[s]? = some socket → (socket.isAlive = false ↔ Unanswered s es)
  opened : ∀ socket, n.sockets[s]? = some socket →
    (socket.readyState = .opened ↔ Each (SparesSocket s) es)

/-- An event of a socket needs the socket. -/
theorem absent_of_step {e : Event} (hstep : n.step e = some n') (hnone : n.sockets[s]? = none) :
    e ≠ .heartbeat s ∧ e ≠ .socketClosing s ∧ e ≠ .socketClose s := by
  refine ⟨?_, ?_, ?_⟩
  all_goals
    rintro rfl
    simp only [step, hnone, Option.bind_eq_bind, Option.bind_none] at hstep
    cases hstep

theorem Pinged.step (h : Pinged s es n) {e : Event} (hstep : n.step e = some n') :
    Pinged s (es ++ [e]) n' := by
  rcases hget : n.sockets[s]? with _ | socket
  · -- the socket is not there, or it is the one that connects
    have habsent : ∀ e' ∈ es ++ [e],
        e' ≠ .heartbeat s ∧ e' ≠ .socketClosing s ∧ e' ≠ .socketClose s := by
      intro e' he'
      rcases List.mem_append.mp he' with he' | he'
      · exact h.absent hget e' he'
      · exact List.mem_singleton.mp he' ▸ absent_of_step hstep hget
    refine ⟨fun _ ↦ habsent, fun socket hget' ↦ ?_, fun socket hget' ↦ ?_⟩
    · rw [(connected_of_step hstep hget hget').1]
      refine iff_of_false Bool.noConfusion fun hunanswered ↦ ?_
      obtain ⟨_, hmem, rfl⟩ := hunanswered.exists_mem
      exact (habsent _ hmem).1 rfl
    · refine iff_of_true (connected_of_step hstep hget hget').2 fun pre a post heq ↦ ?_
      obtain ⟨hheartbeat, hclosing, hclose⟩ := habsent a (heq ▸ by simp)
      exact ⟨hclosing, hclose, fun ha ↦ absurd ha hheartbeat⟩
  · have hget' := sockets_of_step hstep hget
    have halive := h.alive socket hget
    have hopened := h.opened socket hget
    constructor
    · exact fun hnone ↦ absurd (hget'.symm.trans hnone) nofun
    · rintro _ hsome
      obtain rfl := Option.some.inj (hget'.symm.trans hsome)
      rw [isAlive_onSocket, Unanswered, since_concat, ← Unanswered, halive]
    · rintro _ hsome
      obtain rfl := Option.some.inj (hget'.symm.trans hsome)
      rw [opened_onSocket, each_concat, hopened, SparesSocket, ← halive, Bool.not_eq_false]

theorem pinged_of_run {nodeId : JsString} (s : SocketId)
    (hrun : run step (start nodeId) es = some n) : Pinged s es n := by
  induction es using List.reverseRecOn generalizing n with
  | nil =>
    obtain rfl := Option.some.inj hrun
    exact ⟨fun _ ↦ nofun, nofun, nofun⟩
  | append_singleton es e ih =>
    obtain ⟨m, hm, hstep⟩ := run_concat_eq_some.mp hrun
    exact (ih hm).step hstep

/-! ## What the heartbeat does -/

/-- **The heartbeat closes the sockets that do not answer, and no other.** After any run a socket is
open exactly if it has connected, its client has not closed it, and no heartbeat has come to it
before the answer to the one before. The heartbeat that closes it takes it out of every room and out
of the sockets of its user; any other leaves both maps as they are. -/
theorem isOpen_iff_answered {nodeId : JsString} (s : SocketId)
    (hrun : run step (start nodeId) es = some n) :
    (n.isOpen s = true ↔ s < n.sockets.length ∧ Each (SparesSocket s) es) ∧
      ∀ n', n.step (.heartbeat s) = some n' →
        if Unanswered s es then n'.isOpen s = false ∧ n'.Unregistered s
        else n'.isOpen s = n.isOpen s ∧ n'.roomSockets = n.roomSockets ∧
          n'.userSockets = n.userSockets := by
  have h := pinged_of_run s hrun
  refine ⟨?_, fun n' hstep ↦ ?_⟩
  · rw [isOpen, decide_eq_true_iff, Option.map_eq_some_iff]
    constructor
    · rintro ⟨socket, hget, hopen⟩
      exact ⟨(List.getElem?_eq_some_iff.mp hget).1, (h.opened socket hget).mp hopen⟩
    · rintro ⟨hlt, hspared⟩
      have hget := List.getElem?_eq_getElem hlt
      exact ⟨_, hget, (h.opened _ hget).mpr hspared⟩
  · have hregistered := registered_of_run (run_stepAnyOrder hrun)
    simp only [step, Option.bind_eq_bind, Option.bind_eq_some_iff] at hstep
    obtain ⟨socket, hget, -, -, hstep⟩ := hstep
    split at hstep
    · rename_i hpings
      obtain rfl := Option.some.inj hstep
      rw [if_neg (mt (h.alive socket hget).mpr (by rw [hpings]; exact Bool.noConfusion))]
      refine ⟨?_, rfl, rfl⟩
      rw [isOpen, isOpen, getElem?_updateSocket, hget, Option.map_some, if_pos rfl]
      rfl
    · rename_i hterminates
      obtain rfl := Option.some.inj hstep
      rw [if_pos ((h.alive socket hget).mp (Bool.eq_false_of_not_eq_true hterminates))]
      refine ⟨isOpen_updateSocket_self (by rintro _ ⟨⟩), fun R hs ↦ ?_, fun userId hs ↦ ?_⟩
      · exact (mem_socketsOf_cleanupSocket.mp hs).2 rfl
      · change s ∈ (n.cleanupSocket s socket.userId).userSockets.itemsOf userId at hs
        rw [userSockets_cleanupSocket, EsMap.mem_itemsOf_removeItem] at hs
        have howner := hregistered.owner userId s hs.1
        rw [socketUsers_get hget, Option.some.injEq] at howner
        exact hs.2 ⟨howner.symm, rfl⟩

/-- The client answers the first heartbeat and not the second. -/
theorem isOpen_iff_answered_oneOfTwo :
    ∃ n, run step (start []) [.connect [0x61],
        .frame 0 (.joinRoom ⟨⟨Uuid.nil.text, by decide⟩, none, by decide⟩), .heartbeat 0, .pong 0,
        .heartbeat 0] = some n ∧ n.isOpen 0 = true ∧
      ∀ n', n.step (.heartbeat 0) = some n' → n'.isOpen 0 = false ∧ n'.Unregistered 0 := by
  refine exists_run_of_any (fun n : Node ↦ n.isOpen 0 = true) (by decide) ?_
  exact fun n hrun hopen ↦ ⟨hopen, fun n' hstep ↦
    (if_pos (by decide)).mp ((isOpen_iff_answered 0 hrun).2 n' hstep)⟩

end Node

end PostgresChat
