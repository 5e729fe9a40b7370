import PostgresChat.Postgres.Feed
import PostgresChat.Postgres.Undisturbed

/-!
# Channels that are tuned in

Three things stand between a notification and the node that a step may take away: the channel the
server has been told to listen on, the handlers of the current client, and the emitter they pass it
to. A channel is `Tuned` when all three are there and no UNLISTEN of it waits to be executed.

While nothing fails, the channel of a room stays tuned in for as long as the room is counted, and
then every message that is notified on it is fed to the node, behind those before it.
-/

namespace PostgresChat

namespace PostgresService

variable {p p' : PostgresService} {channel : Channel} {R : RoomId}

/-- What is notified on the channel reaches the node, and nothing is about to change that. -/
def Tuned (p : PostgresService) (channel : Channel) : Prop :=
  p.destroyed = false ∧ ∃ cl ∈ p.clients[p.listenClient]?, cl.wired = true ∧
    channel ∈ cl.listening ∧ ∀ cmd ∈ cl.queue, cmd.channel = channel → cmd.verb = .listen

instance (p : PostgresService) (channel : Channel) : Decidable (p.Tuned channel) :=
  inferInstanceAs (Decidable (_ ∧ ∃ cl ∈ p.clients[p.listenClient]?, _))

/-- What a step may do to the current client without detuning a channel. -/
structure KeepsTuned (channel : Channel) (cl cl' : Client) : Prop where
  wired : cl'.wired = cl.wired
  listening : channel ∈ cl.listening → channel ∈ cl'.listening
  queue : ∀ cmd ∈ cl'.queue, cmd ∈ cl.queue ∨ (cmd.channel = channel → cmd.verb = .listen)

theorem Tuned.of_client (h : p.Tuned channel) (hdestroyed : p'.destroyed = p.destroyed)
    (hclient : p'.listenClient = p.listenClient)
    (hclients : ∀ cl, p.clients[p.listenClient]? = some cl →
      ∃ cl', p'.clients[p.listenClient]? = some cl' ∧ KeepsTuned channel cl cl') :
    p'.Tuned channel := by
  obtain ⟨halive, cl, hget, hwired, hlistening, hqueue⟩ := h
  obtain ⟨cl', hget', hkeeps⟩ := hclients cl hget
  refine ⟨hdestroyed.trans halive, cl', hclient ▸ hget', hkeeps.wired.trans hwired,
    hkeeps.listening hlistening, fun cmd hcmd ↦ ?_⟩
  exact (hkeeps.queue cmd hcmd).elim (hqueue cmd) id

theorem Tuned.of_eq (h : p.Tuned channel) (hdestroyed : p'.destroyed = p.destroyed)
    (hclient : p'.listenClient = p.listenClient) (hclients : p'.clients = p.clients) :
    p'.Tuned channel :=
  h.of_client hdestroyed hclient fun cl hget ↦
    ⟨cl, hclients ▸ hget, rfl, id, fun _ hcmd ↦ Or.inl hcmd⟩

/-- One client changes. -/
theorem Tuned.updateClient (h : p.Tuned channel) {c : ℕ} {f : Client → Client}
    (hf : ∀ cl, p.clients[c]? = some cl → KeepsTuned channel cl (f cl)) :
    (p.updateClient c f).Tuned channel := by
  refine h.of_client rfl rfl fun cl hget ↦ ?_
  rw [getElem?_updateClient]
  split
  · rename_i hc
    exact ⟨f cl, by rw [hget]; rfl, hf cl (hc ▸ hget)⟩
  · exact ⟨cl, hget, rfl, id, fun _ hcmd ↦ Or.inl hcmd⟩

/-- A command is issued that is no UNLISTEN of the channel. -/
theorem Tuned.clientQuery (h : p.Tuned channel) (c : ℕ) {cmd : Command}
    (hcmd : cmd.channel = channel → cmd.verb = .listen) :
    (p.clientQuery c cmd).Tuned channel := by
  refine h.updateClient fun cl _ ↦ ⟨rfl, id, fun cmd' hcmd' ↦ ?_⟩
  rcases List.mem_append.mp hcmd' with hold | hnew
  · exact Or.inl hold
  · rw [List.mem_singleton.mp hnew]
    exact Or.inr hcmd

/-! ## Calls -/

theorem Tuned.subscribe (h : p.Tuned channel) (R : RoomId) :
    (p.subscribeToRoomChannel R).Tuned channel := by
  rw [subscribeToRoomChannel]
  split
  · have hcounted : (p.setRoomCount R (p.roomCount R + 1)).Tuned channel := h.of_eq rfl rfl rfl
    exact (hcounted.clientQuery p.listenClient fun _ ↦ rfl).of_eq rfl rfl rfl
  · exact h.of_eq rfl rfl rfl

/-- An UNLISTEN is issued only when the count of its room has come to nothing. -/
theorem Tuned.unsubscribe (h : p.Tuned channel) (R : RoomId)
    (hcount : getRoomNotifyChannel R = channel → (p.unsubscribeFromRoomChannel R).roomCount R ≠ 0) :
    (p.unsubscribeFromRoomChannel R).Tuned channel := by
  rw [roomCount_unsubscribe, if_pos rfl] at hcount
  rw [unsubscribeFromRoomChannel]
  split
  · exact h.of_eq rfl rfl rfl
  · split
    · exact h.of_eq rfl rfl rfl
    · rename_i hlast
      have hdeleted : (p.deleteRoomCount R).Tuned channel := h.of_eq rfl rfl rfl
      refine (hdeleted.clientQuery p.listenClient fun hchannel ↦ ?_).of_eq rfl rfl rfl
      exact absurd (Nat.pos_of_ne_zero (hcount hchannel)) hlast

/-! ## Steps -/

theorem Tuned.settle (h : p.Tuned channel) (issuer : Issuer) (ok : Bool) :
    (p.settle issuer ok).Tuned channel :=
  match issuer with
  | .call _ => h.of_eq rfl rfl rfl
  | .attempt _ => h.of_eq rfl rfl rfl

/-- **Step lemma**, apart from calls. -/
theorem Tuned.step (h : p.Tuned channel) {e : PgEvent} (he : e.Calm)
    (hcall : ∀ R, e ≠ .subscribe R ∧ e ≠ .unsubscribe R) (hstep : p.step e = some p') :
    p'.Tuned channel := by
  cases e with
  | subscribe R => exact absurd rfl (hcall R).1
  | unsubscribe R => exact absurd rfl (hcall R).2
  | execCommand c ok =>
    obtain rfl : ok = true := he
    simp only [PostgresService.step, Option.bind_eq_bind, Option.bind_eq_some_iff] at hstep
    obtain ⟨cl, hget, -, -, hstep⟩ := hstep
    split at hstep
    · cases hstep
    · rename_i cmd rest hqueue
      obtain rfl := Option.some.inj hstep
      obtain ⟨halive, cur, hcur, hwired, hlistening, hverbs⟩ := h
      -- The command at the head of the current client is no UNLISTEN of the channel.
      have hexec : PostgresService.Tuned (p.updateClient c fun cl' ↦
          { cl' with queue := rest, listening := cmd.effect cl.listening }) channel := by
        have hkeeps : c = p.listenClient → channel ∈ cmd.effect cl.listening := by
          rintro rfl
          obtain rfl := Option.some.inj (hget.symm.trans hcur)
          rw [Command.effect]
          split
          · exact Finset.mem_insert_of_mem hlistening
          · rename_i hverb
            refine Finset.mem_erase.mpr ⟨fun hchannel ↦ ?_, hlistening⟩
            have hlisten := hverbs cmd (hqueue ▸ List.mem_cons_self) hchannel.symm
            rw [hverb] at hlisten
            cases hlisten
        refine ⟨halive, ?_⟩
        rw [getElem?_updateClient]
        split
        · rename_i hc
          obtain rfl := Option.some.inj (hget.symm.trans (hc ▸ hcur))
          refine ⟨{ cl with queue := rest, listening := cmd.effect cl.listening }, ?_, hwired,
            hkeeps hc, fun cmd' hcmd' ↦ hverbs cmd' (hqueue ▸ List.mem_cons_of_mem _ hcmd')⟩
          change Option.map _ p.clients[p.listenClient]? = _
          rw [show p.clients[p.listenClient]? = some cl from hcur]
          rfl
        · exact ⟨cur, hcur, hwired, hlistening, hverbs⟩
      exact hexec.settle cmd.issuer true
  | resumeCall id =>
    simp only [PostgresService.step, Option.bind_eq_bind, Option.bind_eq_some_iff] at hstep
    obtain ⟨call, -, hstep⟩ := hstep
    split at hstep
    · obtain rfl := Option.some.inj hstep
      exact h.of_eq rfl rfl rfl
    · obtain rfl := Option.some.inj hstep
      rcases call with ⟨_ | _, _⟩ <;> exact h.of_eq rfl rfl rfl
    · cases hstep
    · cases hstep
  | notify note =>
    obtain rfl := Option.some.inj hstep
    refine h.of_client rfl rfl fun cl hget ↦ ⟨_, by rw [notify, List.getElem?_map, hget]; rfl, ?_⟩
    dsimp only
    split <;> exact ⟨rfl, id, fun _ hcmd ↦ Or.inl hcmd⟩
  | deliver c =>
    simp only [PostgresService.step, Option.bind_eq_bind, Option.bind_eq_some_iff] at hstep
    obtain ⟨cl, -, -, -, hstep⟩ := hstep
    obtain rfl := Option.some.inj hstep
    exact h.updateClient fun cl _ ↦ ⟨rfl, id, fun _ hcmd ↦ Or.inl hcmd⟩
  | _ => exact he.elim

/-! ## What is fed -/

/-- A notification comes behind what was fed before, unless it is one of another channel. -/
theorem Tuned.fed_notify (h : p.Tuned channel) (note : Notification) :
    (p.notify note).fed = p.fed ++ note.message?.toList ∨
      note.channel ≠ channel ∧ (p.notify note).fed = p.fed := by
  obtain ⟨-, cl, hget, hwired, hlistening, -⟩ := h
  have hget' : (p.notify note).clients[p.listenClient]? = some (
      if note.channel ∈ cl.listening then { cl with inbox := cl.inbox ++ [note] } else cl) := by
    rw [notify, List.getElem?_map, hget, Option.map_some]
  have hfed : p.fed = cl.fed := by rw [fed, hget, Option.map_some, Option.getD_some]
  have hfed' : (p.notify note).fed = Client.fed (if note.channel ∈ cl.listening then
      { cl with inbox := cl.inbox ++ [note] } else cl) := by
    rw [fed]
    change (Option.map Client.fed (p.notify note).clients[p.listenClient]?).getD [] = _
    rw [hget', Option.map_some, Option.getD_some]
  rw [hfed', hfed]
  split
  · refine Or.inl ?_
    rw [Client.fed, Client.fed, if_pos hwired, if_pos hwired, List.filterMap_append]
    rcases hmessage : note.message? with _ | row
    · rw [List.filterMap_cons_none hmessage]
      rfl
    · rw [List.filterMap_cons_some hmessage]
      rfl
  · rename_i hother
    exact Or.inr ⟨fun hchannel ↦ hother (hchannel ▸ hlistening), rfl⟩

/-- What is delivered is what was fed first. -/
theorem Tuned.fed_deliver (h : p.Tuned channel) (hpg : p.OneWired) {c : ℕ}
    (hstep : p.step (.deliver c) = some p') :
    ((p.emitted c).bind Notification.message?).toList ++ p'.fed = p.fed := by
  simp only [PostgresService.step, Option.bind_eq_bind, Option.bind_eq_some_iff,
    Option.guard_eq_some'] at hstep
  obtain ⟨cl, hcl, -, hinbox, hstep⟩ := hstep
  obtain rfl := Option.some.inj hstep
  obtain ⟨note, rest, hnote⟩ := List.exists_cons_of_ne_nil hinbox
  by_cases hwired : cl.wired = true
  · obtain rfl := hpg.wired c cl hcl hwired
    have hemitted : p.emitted p.listenClient = some note := by
      rw [emitted, hcl, Option.bind_eq_bind, Option.bind_some, hwired, h.1, hnote]
      rfl
    have hfed : (p.updateClient p.listenClient fun cl ↦ { cl with inbox := cl.inbox.tail }).fed =
        rest.filterMap Notification.message? := by
      rw [fed]
      change (Option.map Client.fed (p.updateClient p.listenClient _).clients[p.listenClient]?).getD
        [] = _
      rw [getElem?_updateClient, if_pos rfl, hcl, Option.map_some, Option.map_some,
        Option.getD_some, Client.fed, if_pos hwired, hnote, List.tail_cons]
    rw [hemitted, hfed, fed, hcl, Option.map_some, Option.getD_some, Client.fed, if_pos hwired,
      hnote, Option.bind_some]
    rcases hmessage : note.message? with _ | row
    · exact (List.filterMap_cons_none hmessage).symm
    · exact (List.filterMap_cons_some hmessage).symm
  · -- Nothing is emitted, and the inbox of the current client is another one.
    have hemitted : p.emitted c = none := by
      rw [emitted, hcl, Option.bind_eq_bind, Option.bind_some, Bool.eq_false_of_not_eq_true hwired]
      rfl
    obtain ⟨-, cur, hcur, hcurwired, -⟩ := h
    rw [hemitted, fed, fed]
    change (Option.map Client.fed (p.updateClient c _).clients[p.listenClient]?).getD [] = _
    rw [getElem?_updateClient, if_neg]
    rintro rfl
    obtain rfl := Option.some.inj (hcl.symm.trans hcur)
    exact hwired hcurwired

/-- A calm step that is neither a notification nor a delivery feeds nothing. -/
theorem fed_of_calm_step {e : PgEvent} (he : e.Calm) (hnotify : ∀ note, e ≠ .notify note)
    (hdeliver : ∀ c, e ≠ .deliver c) (hstep : p.step e = some p') : p'.fed = p.fed := by
  cases e with
  | subscribe R =>
    obtain rfl := Option.some.inj hstep
    exact fed_subscribe p R
  | unsubscribe R =>
    obtain rfl := Option.some.inj hstep
    exact fed_unsubscribe p R
  | execCommand c ok =>
    simp only [PostgresService.step, Option.bind_eq_bind, Option.bind_eq_some_iff] at hstep
    obtain ⟨cl, -, -, -, hstep⟩ := hstep
    split at hstep
    · cases hstep
    · obtain rfl := Option.some.inj hstep
      exact (fed_settle _ _ _).trans (fed_updateClient fun _ ↦ rfl)
  | resumeCall id =>
    simp only [PostgresService.step, Option.bind_eq_bind, Option.bind_eq_some_iff] at hstep
    obtain ⟨call, -, hstep⟩ := hstep
    split at hstep
    · obtain rfl := Option.some.inj hstep
      rfl
    · obtain rfl := Option.some.inj hstep
      exact fed_rollback p call.kind
    · cases hstep
    · cases hstep
  | notify note => exact absurd rfl (hnotify note)
  | deliver c => exact absurd rfl (hdeliver c)
  | _ => exact he.elim

end PostgresService

end PostgresChat
