import PostgresChat.Postgres.Reconnect

/-!
# What the node will handle

While one client at most is wired, the notifications the node will still handle are those in the
inbox of the current client. They become more at their end by what the database notifies, fewer at
their front by what is handled, and are dropped with the client.

Whatever the clients, a notification that waits to be handled has been sent by the server.
-/

namespace PostgresChat

open Execution

/-- The messages in the inbox of a client, if it is wired. -/
def Client.fed (cl : Client) : List MessageRow :=
  if cl.wired then cl.inbox.filterMap Notification.message? else []

/-- The message that the LISTEN connection is notified of. -/
def PgEvent.message? : PgEvent → Option MessageRow
  | .notify note => note.message?
  | _ => none

namespace PostgresService

variable {p p' : PostgresService}

/-- The messages the node will handle, as far as the server has sent them. -/
def fed (p : PostgresService) : List MessageRow :=
  (p.clients[p.listenClient]?.map Client.fed).getD []

theorem fed_congr (h : p'.clients[p'.listenClient]?.map Client.fed =
    p.clients[p.listenClient]?.map Client.fed) : p'.fed = p.fed := by
  rw [fed, fed, h]

theorem fed_updateClient {c : ℕ} {f : Client → Client} (hf : ∀ cl, (f cl).fed = cl.fed) :
    (p.updateClient c f).fed = p.fed := by
  refine fed_congr ?_
  change Option.map Client.fed (p.updateClient c f).clients[p.listenClient]? = _
  rw [getElem?_updateClient]
  split
  · rw [Option.map_map]
    exact Option.map_congr fun cl _ ↦ hf cl
  · rfl

theorem fed_subscribe (p : PostgresService) (R : RoomId) :
    (p.subscribeToRoomChannel R).fed = p.fed := by
  rw [subscribeToRoomChannel]
  split
  · exact fed_updateClient (p := p.setRoomCount R (p.roomCount R + 1)) fun _ ↦ rfl
  · rfl

theorem fed_unsubscribe (p : PostgresService) (R : RoomId) :
    (p.unsubscribeFromRoomChannel R).fed = p.fed := by
  rw [unsubscribeFromRoomChannel]
  split
  · rfl
  · split
    · rfl
    · exact fed_updateClient (p := p.deleteRoomCount R) fun _ ↦ rfl

theorem fed_scheduleReconnect (p : PostgresService) : p.scheduleReconnect.fed = p.fed := by
  rw [scheduleReconnect]
  split <;> rfl

theorem fed_rollback (p : PostgresService) (kind : CallKind) : (p.rollback kind).fed = p.fed := by
  cases kind <;> rfl

theorem fed_settle (p : PostgresService) (issuer : Issuer) (ok : Bool) :
    (p.settle issuer ok).fed = p.fed := by
  cases issuer <;> rfl

theorem fed_visitRooms (p : PostgresService) (a : ℕ) (attempt : Attempt) (c i : ℕ) :
    (p.visitRooms a attempt c i).fed = p.fed := by
  rw [visitRooms]
  split
  · exact fed_updateClient fun _ ↦ rfl
  · rfl

theorem fed_continueAttempt {a : ℕ} {attempt : Attempt}
    (hstep : p.continueAttempt a attempt = some p') : p'.fed = p.fed := by
  rw [continueAttempt] at hstep
  split at hstep <;> cases hstep
  · exact fed_updateClient fun _ ↦ rfl
  · exact fed_updateClient fun _ ↦ rfl
  · exact fed_visitRooms p a attempt _ 0
  · exact fed_visitRooms p a attempt _ _

/-- A notification reaches the node through the current client, if at all. -/
theorem fed_notify (p : PostgresService) (note : Notification) :
    List.Sublist (p.notify note).fed (p.fed ++ note.message?.toList) := by
  rw [fed, fed]
  change List.Sublist ((Option.map Client.fed (p.notify note).clients[p.listenClient]?).getD []) _
  rw [notify, List.getElem?_map]
  cases p.clients[p.listenClient]? with
  | none => exact List.nil_sublist _
  | some cl =>
    rw [Option.map_some, Option.map_some, Option.map_some, Option.getD_some, Option.getD_some]
    split
    · rw [Client.fed, Client.fed]
      split
      · rw [List.filterMap_append]
        cases h : note.message? with
        | none =>
          rw [List.filterMap_cons_none h]
          exact List.Sublist.refl _
        | some row =>
          rw [List.filterMap_cons_some h]
          exact List.Sublist.refl _
      · exact List.nil_sublist _
    · exact List.sublist_append_left _ _

/-- Delivery takes the first notification off an inbox; what is emitted is what was fed. -/
theorem OneWired.fed_deliver (h : OneWired p) {c : ℕ} (hstep : p.step (.deliver c) = some p') :
    List.Sublist (((p.emitted c).bind Notification.message?).toList ++ p'.fed) p.fed := by
  simp only [PostgresService.step, Option.bind_eq_bind, Option.bind_eq_some_iff,
    Option.guard_eq_some'] at hstep
  obtain ⟨cl, hcl, -, hinbox, hstep⟩ := hstep
  cases hstep
  obtain ⟨note, rest, hnote⟩ := List.exists_cons_of_ne_nil hinbox
  by_cases hwired : cl.wired = true
  · obtain rfl := h.wired c cl hcl hwired
    have hfed : p.fed = note.message?.toList ++ rest.filterMap Notification.message? := by
      rw [fed, hcl, Option.map_some, Option.getD_some, Client.fed, if_pos hwired, hnote]
      cases hmessage : note.message? with
      | none => exact List.filterMap_cons_none hmessage
      | some row => exact List.filterMap_cons_some hmessage
    have hfed' : (p.updateClient p.listenClient fun cl ↦ { cl with inbox := cl.inbox.tail }).fed =
        rest.filterMap Notification.message? := by
      rw [fed]
      change (Option.map Client.fed (p.updateClient p.listenClient _).clients[p.listenClient]?).getD
        [] = _
      rw [getElem?_updateClient, if_pos rfl, hcl, Option.map_some, Option.map_some,
        Option.getD_some, Client.fed, if_pos hwired, hnote, List.tail_cons]
    rw [hfed, hfed']
    refine List.Sublist.append ?_ (List.Sublist.refl _)
    rw [emitted, hcl, Option.bind_eq_bind, Option.bind_some, hwired, Bool.true_and, hnote]
    cases p.destroyed with
    | true => exact List.nil_sublist _
    | false => exact List.Sublist.refl _
  · have hemitted : p.emitted c = none := by
      rw [emitted, hcl, Option.bind_eq_bind, Option.bind_some, Bool.eq_false_of_not_eq_true hwired]
      rfl
    have hfed : (p.updateClient c fun cl ↦ { cl with inbox := cl.inbox.tail }).fed = p.fed := by
      refine fed_congr ?_
      change Option.map Client.fed (p.updateClient c _).clients[p.listenClient]? = _
      rw [getElem?_updateClient]
      split
      · rename_i hc
        rw [← hc, hcl, Option.map_some, Option.map_some, Option.map_some, Client.fed, Client.fed,
          if_neg hwired, if_neg hwired]
      · rfl
    rw [hemitted, hfed]
    exact List.Sublist.refl _

/-- **What a step feeds.** At most the message that is notified, behind what was there. -/
theorem OneWired.fed_of_step (h : OneWired p) {e : PgEvent} (hstep : p.step e = some p') :
    List.Sublist p'.fed (p.fed ++ e.message?.toList) := by
  have hsame : p'.fed = p.fed → List.Sublist p'.fed (p.fed ++ e.message?.toList) := fun heq ↦ by
    rw [heq]
    exact List.sublist_append_left _ _
  have hnil : p'.fed = [] → List.Sublist p'.fed (p.fed ++ e.message?.toList) := fun heq ↦ by
    rw [heq]
    exact List.nil_sublist _
  cases e with
  | subscribe R =>
    cases hstep
    exact hsame (fed_subscribe p R)
  | unsubscribe R =>
    cases hstep
    exact hsame (fed_unsubscribe p R)
  | execCommand c ok =>
    simp only [PostgresService.step, Option.bind_eq_bind, Option.bind_eq_some_iff] at hstep
    obtain ⟨cl, -, -, -, hstep⟩ := hstep
    split at hstep
    · cases hstep
    · cases hstep
      exact hsame ((fed_settle _ _ _).trans (fed_updateClient fun _ ↦ rfl))
  | resumeCall i =>
    simp only [PostgresService.step, Option.bind_eq_bind, Option.bind_eq_some_iff] at hstep
    obtain ⟨call, -, hstep⟩ := hstep
    split at hstep
    · cases hstep
      exact hsame rfl
    · cases hstep
      exact hsame (fed_rollback p call.kind)
    all_goals cases hstep
  | clientError c =>
    simp only [PostgresService.step, Option.bind_eq_bind, Option.bind_eq_some_iff] at hstep
    obtain ⟨cl, -, -, -, hstep⟩ := hstep
    cases hstep
    exact hsame ((fed_scheduleReconnect _).trans (fed_updateClient fun _ ↦ rfl))
  | reconnectTimerFires =>
    simp only [PostgresService.step] at hstep
    split at hstep
    · cases hstep
      by_cases hdestroyed : p.destroyed = true
      · refine hsame ?_
        rw [doReconnect, if_pos hdestroyed]
        rfl
      · -- The handlers of the current client are detached.
        refine hnil ?_
        rw [doReconnect, if_neg hdestroyed, fed]
        change (Option.map Client.fed
          (p.updateClient p.listenClient _).clients[p.listenClient]?).getD [] = []
        rw [getElem?_updateClient, if_pos rfl]
        cases p.clients[p.listenClient]? <;> rfl
    · cases hstep
  | endSettles a =>
    simp only [PostgresService.step, Option.bind_eq_bind, Option.bind_eq_some_iff] at hstep
    obtain ⟨attempt, -, -, -, hstep⟩ := hstep
    cases hstep
    refine hnil ?_
    rw [fed]
    change (Option.map Client.fed (p.clients ++ [({} : Client)])[p.clients.length]?).getD [] = []
    rw [List.getElem?_concat_length]
    rfl
  | connectSettles a ok =>
    simp only [PostgresService.step, Option.bind_eq_bind, Option.bind_eq_some_iff] at hstep
    obtain ⟨attempt, -, hstep⟩ := hstep
    split at hstep
    · cases hstep
      exact hsame (fed_updateClient fun _ ↦ rfl)
    · cases hstep
  | resumeAttempt a =>
    simp only [PostgresService.step, Option.bind_eq_bind, Option.bind_eq_some_iff] at hstep
    obtain ⟨attempt, -, hstep⟩ := hstep
    split at hstep
    · exact hsame (fed_continueAttempt hstep)
    · cases hstep
      refine hsame ?_
      rw [PostgresService.failAttempt]
      split
      · rfl
      · exact fed_scheduleReconnect _
    · cases hstep
  | notify note =>
    cases hstep
    exact fed_notify p note
  | deliver c =>
    exact ((List.sublist_append_right _ _).trans (h.fed_deliver hstep)).trans
      (List.sublist_append_left _ _)
  | destroy =>
    cases hstep
    exact hsame (fed_updateClient (p := p) fun _ ↦ rfl)

/-! ## What waits at a client -/

/-- The server has sent the notification to a client, wired or not, which has not handled it. -/
def Waiting (p : PostgresService) (note : Notification) : Prop :=
  ∃ cl ∈ p.clients, note ∈ cl.inbox

variable {note : Notification}

theorem Waiting.of_clients_eq (h : p'.Waiting note) (hclients : p'.clients = p.clients) :
    p.Waiting note := by
  rwa [Waiting, hclients] at h

theorem Waiting.of_updateClient {c : ℕ} {f : Client → Client}
    (h : (p.updateClient c f).Waiting note) (hf : ∀ cl, note ∈ (f cl).inbox → note ∈ cl.inbox) :
    p.Waiting note := by
  obtain ⟨cl', hcl', hnote⟩ := h
  obtain ⟨i, hget⟩ := List.mem_iff_getElem?.mp hcl'
  rw [getElem?_updateClient] at hget
  split at hget
  · obtain ⟨cl, hold, rfl⟩ := Option.map_eq_some_iff.mp hget
    exact ⟨cl, List.mem_of_getElem? hold, hf cl hnote⟩
  · exact ⟨cl', List.mem_of_getElem? hget, hnote⟩

theorem Waiting.of_settle {issuer : Issuer} {ok : Bool} (h : (p.settle issuer ok).Waiting note) :
    p.Waiting note := by
  cases issuer <;> exact h

theorem Waiting.of_scheduleReconnect (h : p.scheduleReconnect.Waiting note) :
    p.Waiting note := by
  rw [scheduleReconnect] at h
  split at h <;> exact h

theorem Waiting.of_continueAttempt {a : ℕ} {attempt : Attempt}
    (hstep : p.continueAttempt a attempt = some p') (h : p'.Waiting note) : p.Waiting note := by
  have hvisit : ∀ {c i : ℕ}, (p.visitRooms a attempt c i).Waiting note → p.Waiting note := by
    intro c i h
    rw [visitRooms] at h
    split at h
    · exact Waiting.of_updateClient (p := p) h fun _ ↦ id
    · exact h
  rw [continueAttempt.eq_def] at hstep
  split at hstep <;> cases hstep
  · exact Waiting.of_updateClient (p := p) h fun _ ↦ id
  · exact Waiting.of_updateClient (p := p) h fun _ ↦ id
  · exact hvisit h
  · exact hvisit h

theorem Waiting.of_failAttempt {a : ℕ} {attempt : Attempt}
    (h : (p.failAttempt a attempt).Waiting note) : p.Waiting note := by
  rw [failAttempt] at h
  split at h
  · exact h
  · exact h.of_scheduleReconnect

/-- A notification waits at a client from when it is sent. -/
theorem waiting_of_step {e : PgEvent} (hstep : p.step e = some p') (h : p'.Waiting note) :
    p.Waiting note ∨ e = .notify note := by
  cases e with
  | notify note' =>
    cases hstep
    obtain ⟨cl', hcl', hnote⟩ := h
    obtain ⟨cl, hcl, rfl⟩ := List.mem_map.mp hcl'
    split at hnote
    · rcases List.mem_append.mp hnote with hnote | hnote
      · exact Or.inl ⟨cl, hcl, hnote⟩
      · exact Or.inr (congrArg PgEvent.notify (List.mem_singleton.mp hnote).symm)
    · exact Or.inl ⟨cl, hcl, hnote⟩
  | subscribe R =>
    cases hstep
    rw [subscribeToRoomChannel] at h
    split at h
    · exact Or.inl (Waiting.of_updateClient (p := p.setRoomCount R _) h fun _ ↦ id)
    · exact Or.inl h
  | unsubscribe R =>
    cases hstep
    rw [unsubscribeFromRoomChannel] at h
    split at h
    · exact Or.inl h
    · split at h
      · exact Or.inl h
      · exact Or.inl (Waiting.of_updateClient (p := p.deleteRoomCount R) h fun _ ↦ id)
  | execCommand c ok =>
    simp only [PostgresService.step, Option.bind_eq_bind, Option.bind_eq_some_iff] at hstep
    obtain ⟨cl, -, -, -, hstep⟩ := hstep
    split at hstep <;> cases hstep
    exact Or.inl (h.of_settle.of_updateClient fun _ ↦ id)
  | resumeCall i =>
    simp only [PostgresService.step, Option.bind_eq_bind, Option.bind_eq_some_iff] at hstep
    obtain ⟨call, -, hstep⟩ := hstep
    split at hstep <;> cases hstep
    · exact Or.inl h
    · refine Or.inl (h.of_clients_eq ?_)
      cases call.kind <;> rfl
  | clientError c =>
    simp only [PostgresService.step, Option.bind_eq_bind, Option.bind_eq_some_iff] at hstep
    obtain ⟨cl, -, -, -, hstep⟩ := hstep
    cases hstep
    exact Or.inl (h.of_scheduleReconnect.of_updateClient fun _ ↦ id)
  | reconnectTimerFires =>
    simp only [PostgresService.step, Option.ite_none_right_eq_some, Option.some.injEq] at hstep
    obtain ⟨-, rfl⟩ := hstep
    rw [doReconnect] at h
    split at h
    · exact Or.inl h
    · exact Or.inl (Waiting.of_updateClient (p := p) (c := p.listenClient)
        (f := fun cl ↦ { cl with wired := false, ended := true }) h fun _ ↦ id)
  | endSettles a =>
    simp only [PostgresService.step, Option.bind_eq_bind, Option.bind_eq_some_iff] at hstep
    obtain ⟨attempt, -, -, -, hstep⟩ := hstep
    cases hstep
    obtain ⟨cl, hcl, hnote⟩ := h
    rcases List.mem_append.mp hcl with hcl | hcl
    · exact Or.inl ⟨cl, hcl, hnote⟩
    · rw [List.mem_singleton.mp hcl] at hnote
      cases hnote
  | connectSettles a ok =>
    simp only [PostgresService.step, Option.bind_eq_bind, Option.bind_eq_some_iff] at hstep
    obtain ⟨attempt, -, hstep⟩ := hstep
    split at hstep <;> cases hstep
    exact Or.inl (Waiting.of_updateClient (p := p) h fun _ ↦ id)
  | resumeAttempt a =>
    simp only [PostgresService.step, Option.bind_eq_bind, Option.bind_eq_some_iff] at hstep
    obtain ⟨attempt, -, hstep⟩ := hstep
    split at hstep
    · exact Or.inl (h.of_continueAttempt hstep)
    · cases hstep
      exact Or.inl h.of_failAttempt
    · cases hstep
  | deliver c =>
    simp only [PostgresService.step, Option.bind_eq_bind, Option.bind_eq_some_iff] at hstep
    obtain ⟨cl, -, -, -, hstep⟩ := hstep
    cases hstep
    exact Or.inl (h.of_updateClient fun _ ↦ List.mem_of_mem_tail)
  | destroy =>
    cases hstep
    exact Or.inl (Waiting.of_updateClient (p := p) (c := p.listenClient)
      (f := fun cl ↦ { cl with ended := true }) h fun _ ↦ id)

/-- What is emitted has waited. -/
theorem waiting_of_emitted {c : ℕ} (h : p.emitted c = some note) : p.Waiting note := by
  simp only [emitted, Option.bind_eq_bind, Option.bind_eq_some_iff] at h
  obtain ⟨cl, hcl, -, -, hhead⟩ := h
  exact ⟨cl, List.mem_of_getElem? hcl, List.mem_of_mem_head? hhead⟩

end PostgresService

end PostgresChat
