import PostgresChat.Lib.Lists
import PostgresChat.Postgres.Undisturbed

/-!
# While rooms are only subscribed to

As long as nothing fails and nobody unsubscribes, there is one client, every command that waits on
it is a LISTEN, and its channels only become more. A call of `subscribeToRoomChannel` that found a
room without a count returns when its LISTEN has been executed. One that found a count returns at
once; it is only as good as the LISTEN before it, which may still be waiting.
-/

namespace PostgresChat

open Execution

namespace PostgresService

variable {p p' p'' : PostgresService} {cl cl' cl'' : Client} {X : Channel → Prop}

/-- The command is a LISTEN, on the channel of the room of the call that awaits it. -/
def Serves (p : PostgresService) (cmd : Command) : Prop :=
  cmd.verb = .listen ∧ ∀ id, cmd.issuer = .call id →
    ∃ R, (p.calls.map Call.kind)[id]? = some (.subscribe R) ∧ cmd.channel = getRoomNotifyChannel R

/-- There is one client, only LISTEN is waiting, and a subscription that has come to its end is one
to a channel the client listens on. -/
structure OnlyListens (p : PostgresService) (cl : Client) : Prop where
  clients : p.clients = [cl]
  listenClient : p.listenClient = 0
  queue : ∀ cmd ∈ cl.queue, p.Serves cmd
  answered : ∀ call ∈ p.calls, ∀ R, call.kind = .subscribe R →
    call.status = .waiting ∨ getRoomNotifyChannel R ∈ cl.listening

theorem onlyListens_ready (nodeId : JsString) :
    OnlyListens (ready nodeId)
      { connected := true, listening := {typingChannel, presenceChannel} } :=
  ⟨rfl, rfl, nofun, nofun⟩

theorem OnlyListens.listensOn_iff (h : OnlyListens p cl) {channel : Channel} :
    p.ListensOn channel ↔ channel ∈ cl.listening := by
  rw [ListensOn, h.clients, h.listenClient]
  simp

/-- Calls and channels become more, the channels by those of `X` only. -/
structure Grows (X : Channel → Prop) (p : PostgresService) (cl : Client) (p' : PostgresService)
    (cl' : Client) : Prop where
  calls : p.calls.map Call.kind <+: p'.calls.map Call.kind
  listening : cl.listening ⊆ cl'.listening
  added : ∀ channel ∈ cl'.listening, channel ∈ cl.listening ∨ X channel

theorem Grows.refl : Grows X p cl p cl :=
  ⟨List.prefix_rfl, Finset.Subset.refl _, fun _ h ↦ Or.inl h⟩

theorem Grows.trans (h : Grows X p cl p' cl') (h' : Grows X p' cl' p'' cl'') :
    Grows X p cl p'' cl'' :=
  ⟨h.calls.trans h'.calls, h.listening.trans h'.listening,
    fun channel hmem ↦ (h'.added channel hmem).elim (h.added channel) Or.inr⟩

theorem Grows.kind (h : Grows X p cl p' cl') {id : ℕ} {kind : CallKind}
    (hget : (p.calls.map Call.kind)[id]? = some kind) :
    (p'.calls.map Call.kind)[id]? = some kind := by
  obtain ⟨rest, hrest⟩ := h.calls
  rw [← hrest, List.getElem?_append_left (List.getElem?_eq_some_iff.mp hget).1, hget]

theorem Grows.serves (h : Grows X p cl p' cl') {cmd : Command} (hcmd : p.Serves cmd) :
    p'.Serves cmd :=
  ⟨hcmd.1, fun id hid ↦ (hcmd.2 id hid).imp fun _ hR ↦ ⟨h.kind hR.1, hR.2⟩⟩

/-! ## Calls -/

theorem calls_subscribeToRoomChannel (p : PostgresService) (R : RoomId) :
    ∃ status, (p.subscribeToRoomChannel R).calls = p.calls ++ [⟨.subscribe R, status⟩] := by
  rw [subscribeToRoomChannel]
  split <;> exact ⟨_, rfl⟩

/-- A subscription to a room that is not counted, or whose channel is listened on. -/
theorem OnlyListens.subscribe (h : OnlyListens p cl) {R : RoomId}
    (hR : p.roomCount R ≠ 0 → getRoomNotifyChannel R ∈ cl.listening) :
    ∃ cl', OnlyListens (p.subscribeToRoomChannel R) cl' ∧
      Grows X p cl (p.subscribeToRoomChannel R) cl' := by
  obtain ⟨status, hcalls⟩ := calls_subscribeToRoomChannel p R
  have hkinds : (p.subscribeToRoomChannel R).calls.map Call.kind =
      p.calls.map Call.kind ++ [.subscribe R] := by rw [hcalls, List.map_append]; rfl
  have hgrows : ∀ cl', cl'.listening = cl.listening →
      Grows X p cl (p.subscribeToRoomChannel R) cl' := fun cl' hlistening ↦
    ⟨by rw [hkinds]; exact List.prefix_append _ _, by rw [hlistening],
      fun channel hmem ↦ Or.inl (hlistening ▸ hmem)⟩
  by_cases hzero : p.roomCount R = 0
  · have hsubscribe : p.subscribeToRoomChannel R =
        ((p.setRoomCount R (p.roomCount R + 1)).clientQuery p.listenClient
          ⟨.listen, getRoomNotifyChannel R, .call p.calls.length⟩).addCall (.subscribe R)
            .waiting := by rw [subscribeToRoomChannel, if_pos hzero]
    refine ⟨{ cl with queue := cl.queue ++
      [⟨.listen, getRoomNotifyChannel R, .call p.calls.length⟩] }, ⟨?_, ?_, ?_, ?_⟩, hgrows _ rfl⟩
    · rw [hsubscribe]
      change p.clients.modify p.listenClient _ = _
      rw [h.clients, h.listenClient]
      rfl
    · rw [hsubscribe]
      exact h.listenClient
    · intro cmd hcmd
      rcases List.mem_append.mp hcmd with hcmd | hcmd
      · exact (hgrows cl rfl).serves (h.queue cmd hcmd)
      · rw [List.mem_singleton.mp hcmd]
        refine ⟨rfl, ?_⟩
        rintro _ ⟨⟩
        refine ⟨R, ?_, rfl⟩
        rw [hkinds, List.getElem?_append_right (by rw [List.length_map]), List.length_map,
          Nat.sub_self]
        rfl
    · intro call hcall R' hkind
      rw [hsubscribe] at hcall
      rcases List.mem_append.mp hcall with hcall | hcall
      · exact h.answered call hcall R' hkind
      · rw [List.mem_singleton.mp hcall]
        exact Or.inl rfl
  · have hsubscribe : p.subscribeToRoomChannel R =
        (p.setRoomCount R (p.roomCount R + 1)).addCall (.subscribe R) (.returned true) := by
      rw [subscribeToRoomChannel, if_neg hzero]
    refine ⟨cl, ⟨?_, ?_, fun cmd hcmd ↦ (hgrows cl rfl).serves (h.queue cmd hcmd), ?_⟩,
      hgrows cl rfl⟩
    · rw [hsubscribe]
      exact h.clients
    · rw [hsubscribe]
      exact h.listenClient
    · intro call hcall R' hkind
      rw [hsubscribe] at hcall
      rcases List.mem_append.mp hcall with hcall | hcall
      · exact h.answered call hcall R' hkind
      · rw [List.mem_singleton.mp hcall] at hkind
        cases hkind
        exact Or.inr (hR hzero)

/-! ## Steps of the connection -/

/-- The channel of the LISTEN that an event executes. -/
def Executes (cl : Client) (e : PgEvent) (channel : Channel) : Prop :=
  e = .execCommand 0 true ∧ ∃ cmd, cl.queue.head? = some cmd ∧ cmd.verb = .listen ∧
    cmd.channel = channel

/-- The client changes its queue, channels or inbox; nothing happens to calls. -/
theorem OnlyListens.updateClient (h : OnlyListens p cl) {f : Client → Client}
    (hqueue : ∀ cmd ∈ (f cl).queue, cmd ∈ cl.queue) (hlistening : cl.listening ⊆ (f cl).listening) :
    OnlyListens (p.updateClient 0 f) (f cl) := by
  refine ⟨?_, h.listenClient, fun cmd hcmd ↦ h.queue cmd (hqueue cmd hcmd), ?_⟩
  · change p.clients.modify 0 f = _
    rw [h.clients]
    rfl
  · exact fun call hcall R hkind ↦ (h.answered call hcall R hkind).imp_right fun hmem ↦
      hlistening hmem

theorem kinds_set {calls : List Call} {id : ℕ} {call : Call} {status : CallStatus}
    (hget : calls[id]? = some call) :
    (calls.set id { call with status := status }).map Call.kind = calls.map Call.kind :=
  Lists.map_set_eq hget rfl

/-- A call takes note that its LISTEN has been executed, or returns after that. -/
theorem OnlyListens.answer (h : OnlyListens p cl) (hclients : p'.clients = p.clients)
    (hclient : p'.listenClient = p.listenClient) {id : ℕ} {call : Call} {status : CallStatus}
    (hget : p.calls[id]? = some call)
    (hcalls : p'.calls = p.calls.set id { call with status := status })
    (hlistening : ∀ R, call.kind = .subscribe R → getRoomNotifyChannel R ∈ cl.listening) :
    OnlyListens p' cl := by
  refine ⟨hclients.trans h.clients, hclient.trans h.listenClient, fun cmd hcmd ↦ ?_,
    fun call' hcall' R hkind ↦ ?_⟩
  · rw [Serves, hcalls, kinds_set hget]
    exact h.queue cmd hcmd
  · rw [hcalls] at hcall'
    rcases List.mem_or_eq_of_mem_set hcall' with hcall' | rfl
    · exact h.answered call' hcall' R hkind
    · exact Or.inr (hlistening R hkind)

/-- **Step lemma**, apart from calls. -/
theorem OnlyListens.step (h : OnlyListens p cl) (hagree : Agreement p) {e : PgEvent} (he : e.Calm)
    (hcall : ∀ R, e ≠ .subscribe R ∧ e ≠ .unsubscribe R) (hstep : p.step e = some p') :
    ∃ cl', OnlyListens p' cl' ∧ Grows (Executes cl e) p cl p' cl' := by
  have honly : ∀ {c : ℕ} {cl₀ : Client}, p.clients[c]? = some cl₀ → c = 0 ∧ cl₀ = cl := by
    intro c cl₀ hget
    rw [h.clients] at hget
    obtain ⟨hlt, heq⟩ := List.getElem?_eq_some_iff.mp hget
    obtain rfl : c = 0 := by simpa using hlt
    exact ⟨rfl, heq.symm⟩
  cases e with
  | subscribe R => exact absurd rfl (hcall R).1
  | unsubscribe R => exact absurd rfl (hcall R).2
  | execCommand c ok =>
    obtain rfl : ok = true := he
    simp only [PostgresService.step, Option.bind_eq_bind, Option.bind_eq_some_iff] at hstep
    obtain ⟨cl₀, hget, -, -, hstep⟩ := hstep
    obtain ⟨rfl, rfl⟩ := honly hget
    split at hstep
    · cases hstep
    · rename_i cmd rest hqueue
      cases hstep
      obtain ⟨hverb, hissuer⟩ := h.queue cmd (hqueue ▸ List.mem_cons_self)
      -- The queue holds LISTENs only, so the channels can only get more.
      have heffect : cmd.effect cl₀.listening = insert cmd.channel cl₀.listening := by
        rw [Command.effect, hverb]
      have hupdated := h.updateClient (f := fun cl ↦
        { cl with queue := rest, listening := cmd.effect cl₀.listening })
        (fun cmd' hcmd' ↦ hqueue ▸ List.mem_cons_of_mem _ hcmd')
        (by rw [heffect]; exact Finset.subset_insert _ _)
      have hgrows : ∀ {p' : PostgresService}, p'.calls.map Call.kind = p.calls.map Call.kind →
          Grows (Executes cl₀ (.execCommand 0 true)) p cl₀ p'
            { cl₀ with queue := rest, listening := cmd.effect cl₀.listening } := by
        intro p' hkinds
        refine ⟨by rw [hkinds], by rw [heffect]; exact Finset.subset_insert _ _, fun ch hmem ↦ ?_⟩
        rw [heffect, Finset.mem_insert] at hmem
        exact hmem.symm.imp_right fun hch ↦ ⟨rfl, cmd, by rw [hqueue]; rfl, hverb, hch.symm⟩
      cases hcase : cmd.issuer with
      | attempt a => exact ⟨_, ⟨hupdated.clients, hupdated.listenClient, hupdated.queue,
          hupdated.answered⟩, hgrows rfl⟩
      | call id =>
        obtain ⟨R, hkind, hchannel⟩ := hissuer id hcase
        rw [List.getElem?_map, Option.map_eq_some_iff] at hkind
        obtain ⟨call, hcall', hkind⟩ := hkind
        have hsettled := Lists.modify_eq_set (f := fun call : Call ↦
          { call with status := .settled true }) hcall'
        refine ⟨_, hupdated.answer rfl rfl hcall' hsettled fun R' hkind' ↦ ?_,
          hgrows ((congrArg (List.map Call.kind) hsettled).trans (kinds_set hcall'))⟩
        rw [hkind] at hkind'
        cases hkind'
        rw [← hchannel, heffect]
        exact Finset.mem_insert_self _ _
  | resumeCall id =>
    simp only [PostgresService.step, Option.bind_eq_bind, Option.bind_eq_some_iff] at hstep
    obtain ⟨call, hget, hstep⟩ := hstep
    split at hstep
    · rename_i hstatus
      cases hstep
      refine ⟨cl, h.answer rfl rfl hget rfl fun R hkind ↦ ?_, ?_, Finset.Subset.refl _,
        fun _ hmem ↦ Or.inl hmem⟩
      · exact (h.answered call (List.mem_of_getElem? hget) R hkind).resolve_left
          (by rw [hstatus]; rintro ⟨⟩)
      · exact (kinds_set hget).symm ▸ List.prefix_rfl
    · rename_i hstatus
      -- No call has failed.
      exact absurd hstatus (hagree.calls call (List.mem_of_getElem? hget))
    all_goals cases hstep
  | notify note =>
    cases hstep
    have hnotify : p.notify note = p.updateClient 0 fun cl ↦
        if note.channel ∈ cl.listening then { cl with inbox := cl.inbox ++ [note] } else cl := by
      rw [PostgresService.notify, PostgresService.updateClient, h.clients]
      rfl
    rw [hnotify]
    have hsame : ∀ cl : Client, (if note.channel ∈ cl.listening then
        { cl with inbox := cl.inbox ++ [note] } else cl).queue = cl.queue ∧
        (if note.channel ∈ cl.listening then
          { cl with inbox := cl.inbox ++ [note] } else cl).listening = cl.listening := by
      intro cl
      split <;> exact ⟨rfl, rfl⟩
    obtain ⟨hqueue, hlistening⟩ := hsame cl
    exact ⟨_, h.updateClient (fun cmd hcmd ↦ hqueue ▸ hcmd) (by rw [hlistening]),
      List.prefix_rfl, by rw [hlistening], fun ch hmem ↦ Or.inl (hlistening ▸ hmem)⟩
  | deliver c =>
    simp only [PostgresService.step, Option.bind_eq_bind, Option.bind_eq_some_iff] at hstep
    obtain ⟨cl₀, hget, -, -, hstep⟩ := hstep
    obtain ⟨rfl, rfl⟩ := honly hget
    cases hstep
    exact ⟨_, h.updateClient (f := fun cl ↦ { cl with inbox := cl.inbox.tail }) (fun _ hcmd ↦ hcmd)
      (Finset.Subset.refl _), ⟨List.prefix_rfl, Finset.Subset.refl _, fun _ hmem ↦ Or.inl hmem⟩⟩
  | _ => exact he.elim

end PostgresService

end PostgresChat
