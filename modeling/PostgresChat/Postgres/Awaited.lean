import PostgresChat.Lib.Lists
import PostgresChat.Postgres.Listen

/-!
# Whoever awaits a command has one

A call or an attempt that stands at an `await` of `client.query(...)` is continued when the command
settles, and by nothing else. So it stands there for good if the command is nowhere queued. This
does not happen (`Awaited`): a command is queued when its issuer starts to wait, and it leaves its
queue by settling.
-/

namespace PostgresChat

namespace PostgresService

variable {p p' q : PostgresService}

/-- The call or attempt stands at the `await` of a command. -/
def Awaits (p : PostgresService) : Issuer → Prop
  | .call id => p.calls[id]?.map Call.status = some .waiting
  | .attempt a => ∃ attempt, p.attempts[a]? = some attempt ∧ attempt.settled = none ∧
      ∃ c point, attempt.stage = .ensuring c point

/-- Some client has a command of this issuer in its queue. -/
def Queued (p : PostgresService) (issuer : Issuer) : Prop :=
  ∃ (c : ℕ) (cl : Client), p.clients[c]? = some cl ∧ issuer ∈ cl.queue.map Command.issuer

/-- The clients an attempt or the service refers to have been made, and whoever awaits a command has
one. -/
structure Awaited (p : PostgresService) : Prop where
  bound : p.listenClient < p.clients.length
  client : ∀ attempt ∈ p.attempts, ∀ c point, attempt.stage = .ensuring c point →
    c < p.clients.length
  queued : ∀ issuer, p.Awaits issuer → p.Queued issuer

theorem awaited_ready (nodeId : JsString) : Awaited (ready nodeId) := by
  refine ⟨Nat.zero_lt_one, fun attempt hmem c point hstage ↦ ?_, fun issuer hawaits ↦ ?_⟩
  · rw [List.mem_singleton.mp hmem] at hstage
    cases hstage
  · cases issuer with
    | call id => cases hawaits
    | attempt a =>
      obtain ⟨attempt, hget, -, c, point, hstage⟩ := hawaits
      rw [List.mem_singleton.mp (List.mem_of_getElem? hget)] at hstage
      cases hstage

/-! ## Queues -/

theorem Queued.of_clients_eq (hclients : p'.clients = p.clients) {issuer : Issuer}
    (h : p.Queued issuer) : p'.Queued issuer := by
  rwa [Queued, hclients]

/-- No update but the execution of a command takes one from a queue. -/
theorem Queued.updateClient {c : ℕ} {f : Client → Client}
    (hf : ∀ cl, ∃ more, (f cl).queue = cl.queue ++ more) {issuer : Issuer} (h : p.Queued issuer) :
    (p.updateClient c f).Queued issuer := by
  obtain ⟨i, cl, hget, hmem⟩ := h
  by_cases hi : c = i
  · obtain ⟨more, hqueue⟩ := hf cl
    refine ⟨i, f cl, by rw [getElem?_updateClient, if_pos hi, hget, Option.map_some], ?_⟩
    rw [hqueue, List.map_append]
    exact List.mem_append_left _ hmem
  · exact ⟨i, cl, by rw [getElem?_updateClient, if_neg hi, hget], hmem⟩

theorem queued_clientQuery {c : ℕ} (hlt : c < p.clients.length) (cmd : Command) :
    (p.clientQuery c cmd).Queued cmd.issuer := by
  refine ⟨c, { p.clients[c] with queue := p.clients[c].queue ++ [cmd] }, ?_, ?_⟩
  · rw [PostgresService.clientQuery, getElem?_updateClient, if_pos rfl,
      List.getElem?_eq_getElem hlt, Option.map_some]
  · rw [List.map_append]
    exact List.mem_append_right _ List.mem_cons_self

/-- A command leaves its queue. -/
theorem Queued.exec {c : ℕ} {cl : Client} {cmd : Command} {rest : List Command}
    {f : Client → Client}
    (hget : p.clients[c]? = some cl) (hqueue : cl.queue = cmd :: rest)
    (hf : (f cl).queue = rest) {issuer : Issuer} (hne : issuer ≠ cmd.issuer)
    (h : p.Queued issuer) : (p.updateClient c f).Queued issuer := by
  obtain ⟨i, cl', hget', hmem⟩ := h
  by_cases hi : c = i
  · subst hi
    obtain rfl : cl = cl' := Option.some.inj (hget.symm.trans hget')
    refine ⟨c, f cl, by rw [getElem?_updateClient, if_pos rfl, hget, Option.map_some], ?_⟩
    rw [hf]
    rw [hqueue, List.map_cons] at hmem
    exact (List.mem_cons.mp hmem).resolve_left hne
  · exact ⟨i, cl', by rw [getElem?_updateClient, if_neg hi, hget'], hmem⟩

/-! ## Steps -/

/-- A step in which nobody starts to wait, unless with a command. -/
theorem Awaited.move (h : Awaited p) (hbound : p'.listenClient < p'.clients.length)
    (hclient : ∀ attempt ∈ p'.attempts, ∀ c point, attempt.stage = .ensuring c point →
      c < p'.clients.length)
    (hqueued : ∀ issuer, p'.Awaits issuer → p'.Queued issuer ∨
      p.Awaits issuer ∧ (p.Queued issuer → p'.Queued issuer)) : Awaited p' :=
  ⟨hbound, hclient, fun issuer hawaits ↦ (hqueued issuer hawaits).elim id fun hold ↦
    hold.2 (h.queued issuer hold.1)⟩

/-- A step that changes neither calls nor attempts, and takes no command from a queue. -/
theorem Awaited.frame (h : Awaited p) (hcalls : p'.calls = p.calls)
    (hattempts : p'.attempts = p.attempts) (hclient : p'.listenClient = p.listenClient)
    (hlength : p'.clients.length = p.clients.length)
    (hqueued : ∀ issuer, p.Queued issuer → p'.Queued issuer) : Awaited p' := by
  refine h.move ?_ (fun attempt hmem c point hstage ↦ ?_) fun issuer hawaits ↦
    Or.inr ⟨?_, hqueued issuer⟩
  · rw [hclient, hlength]
    exact h.bound
  · rw [hlength]
    exact h.client attempt (hattempts ▸ hmem) c point hstage
  · cases issuer with
    | call id => rwa [Awaits, hcalls] at hawaits
    | attempt a => rwa [Awaits, hattempts] at hawaits

theorem Awaited.updateClient (h : Awaited p) (c : ℕ) {f : Client → Client}
    (hf : ∀ cl, ∃ more, (f cl).queue = cl.queue ++ more) : Awaited (p.updateClient c f) :=
  h.frame rfl rfl rfl (length_updateClient p c f) fun _ ↦ Queued.updateClient hf

/-- Something other than commands becomes of a client. -/
theorem Awaited.keepQueue (h : Awaited p) (c : ℕ) {f : Client → Client}
    (hf : ∀ cl, (f cl).queue = cl.queue) : Awaited (p.updateClient c f) :=
  h.updateClient c fun cl ↦ ⟨[], (hf cl).trans (List.append_nil _).symm⟩

theorem Awaited.scheduleReconnect (h : Awaited p) : Awaited p.scheduleReconnect := by
  rw [PostgresService.scheduleReconnect]
  split
  · exact h
  · exact h.frame rfl rfl rfl rfl fun _ ↦ id

/-- A new call waits only with a command. -/
theorem Awaited.addCall (h : Awaited p) (kind : CallKind) (status : CallStatus)
    (hqueued : status = .waiting → p.Queued (.call p.calls.length)) :
    Awaited (p.addCall kind status) := by
  refine h.move h.bound h.client fun issuer hawaits ↦ ?_
  cases issuer with
  | call i =>
    obtain ⟨call, hget, hwaiting⟩ := Option.map_eq_some_iff.mp hawaits
    rcases Lists.getElem?_concat_eq_some.mp hget with hold | ⟨rfl, rfl⟩
    · exact Or.inr ⟨Option.map_eq_some_iff.mpr ⟨call, hold, hwaiting⟩, id⟩
    · exact Or.inl (hqueued hwaiting)
  | attempt a => exact Or.inr ⟨hawaits, id⟩

theorem Awaited.subscribe (h : Awaited p) (R : RoomId) : Awaited (p.subscribeToRoomChannel R) := by
  have hcounted : Awaited (p.setRoomCount R (p.roomCount R + 1)) :=
    h.frame rfl rfl rfl rfl fun _ ↦ id
  rw [subscribeToRoomChannel]
  split
  · exact (hcounted.updateClient p.listenClient fun _ ↦ ⟨_, rfl⟩).addCall _ _ fun _ ↦
      queued_clientQuery hcounted.bound _
  · exact hcounted.addCall _ _ (by rintro ⟨⟩)

theorem Awaited.unsubscribe (h : Awaited p) (R : RoomId) :
    Awaited (p.unsubscribeFromRoomChannel R) := by
  rw [unsubscribeFromRoomChannel]
  split
  · exact h.addCall _ _ (by rintro ⟨⟩)
  · split
    · have hcounted : Awaited (p.setRoomCount R (p.roomCount R - 1)) :=
        h.frame rfl rfl rfl rfl fun _ ↦ id
      exact hcounted.addCall _ _ (by rintro ⟨⟩)
    · have hcounted : Awaited (p.deleteRoomCount R) := h.frame rfl rfl rfl rfl fun _ ↦ id
      exact (hcounted.updateClient p.listenClient fun _ ↦ ⟨_, rfl⟩).addCall _ _ fun _ ↦
        queued_clientQuery hcounted.bound _

/-- An attempt waits only with a command, on a client that has been made. -/
theorem Awaited.setAttempt (h : Awaited p) {a : ℕ} {attempt : Attempt}
    (hensuring : ∀ c point, attempt.stage = .ensuring c point → c < p.clients.length ∧
      (attempt.settled = none → p.Queued (.attempt a))) : Awaited (p.setAttempt a attempt) := by
  refine h.move h.bound (fun attempt' hmem c point hstage ↦ ?_) fun issuer hawaits ↦ ?_
  · rcases List.mem_or_eq_of_mem_set hmem with hmem | rfl
    · exact h.client attempt' hmem c point hstage
    · exact (hensuring c point hstage).1
  · cases issuer with
    | call i => exact Or.inr ⟨hawaits, id⟩
    | attempt a' =>
      obtain ⟨attempt', hget, hnone, c, point, hstage⟩ := hawaits
      rcases Lists.of_getElem?_set hget with ⟨-, hold⟩ | ⟨rfl, rfl⟩
      · exact Or.inr ⟨⟨attempt', hold, hnone, c, point, hstage⟩, id⟩
      · exact Or.inl ((hensuring c point hstage).2 hnone)

/-- An attempt issues its next command. -/
theorem Awaited.issue (h : Awaited p) (a : ℕ) {c : ℕ} (hlt : c < p.clients.length)
    (channel : Channel) (attempt : Attempt) (point : EnsurePoint) :
    Awaited ((p.clientQuery c ⟨.listen, channel, .attempt a⟩).setAttempt a
      { attempt with stage := .ensuring c point, settled := none }) := by
  refine (h.updateClient c fun _ ↦ ⟨_, rfl⟩).setAttempt ?_
  rintro _ _ ⟨⟩
  exact ⟨hlt.trans_eq (length_updateClient _ _ _).symm, fun _ ↦ queued_clientQuery hlt _⟩

theorem Awaited.continueAttempt (h : Awaited p) {a : ℕ} {attempt : Attempt}
    (hget : p.attempts[a]? = some attempt) (hstep : p.continueAttempt a attempt = some p') :
    Awaited p' := by
  have hlt := h.client attempt (List.mem_of_getElem? hget)
  have hvisit : ∀ c point, attempt.stage = .ensuring c point → ∀ i,
      Awaited (p.visitRooms a attempt c i) := by
    intro c point hstage i
    rw [visitRooms]
    split
    · exact h.issue a (hlt c point hstage) _ attempt _
    · have hfinished : Awaited
          (p.setAttempt a { attempt with stage := .finished c, settled := none }) :=
        h.setAttempt nofun
      exact hfinished.frame rfl rfl rfl rfl fun _ ↦ id
  rw [continueAttempt.eq_def] at hstep
  split at hstep
  · cases hstep
    exact h.issue a h.bound _ attempt _
  · rename_i c hstage
    cases hstep
    exact h.issue a (hlt c _ hstage) _ attempt _
  · rename_i c hstage
    cases hstep
    exact hvisit c _ hstage 0
  · rename_i c i hstage
    cases hstep
    exact hvisit c _ hstage i
  all_goals cases hstep

/-- A command settles: its issuer waits no more, and the others keep theirs. -/
theorem Awaited.execCommand (h : Awaited p) {c : ℕ} {cl : Client} {cmd : Command}
    {rest : List Command} (hcl : p.clients[c]? = some cl) (hqueue : cl.queue = cmd :: rest)
    {f : Client → Client} (hf : (f cl).queue = rest) (ok : Bool) :
    Awaited ((p.updateClient c f).settle cmd.issuer ok) := by
  have hexec : ∀ issuer, issuer ≠ cmd.issuer → p.Queued issuer →
      (p.updateClient c f).Queued issuer := fun _ ↦ Queued.exec hcl hqueue hf
  cases hissuer : cmd.issuer with
  | call id =>
    rw [hissuer] at hexec
    refine h.move (h.bound.trans_eq (length_updateClient _ _ _).symm)
      (fun attempt hmem i point hstage ↦
        (h.client attempt hmem i point hstage).trans_eq (length_updateClient _ _ _).symm)
      fun issuer hawaits ↦ Or.inr ?_
    cases issuer with
    | call i =>
      by_cases hi : id = i
      · subst hi
        change (p.calls.modify id _)[id]?.map Call.status = _ at hawaits
        rw [List.getElem?_modify_eq, Option.map_eq_map, Option.map_map] at hawaits
        obtain ⟨call, -, ⟨⟩⟩ := Option.map_eq_some_iff.mp hawaits
      · change (p.calls.modify id _)[i]?.map Call.status = _ at hawaits
        rw [List.getElem?_modify_ne _ _ hi] at hawaits
        exact ⟨hawaits, hexec _ fun heq ↦ hi (Issuer.call.inj heq).symm⟩
    | attempt a => exact ⟨hawaits, hexec _ nofun⟩
  | attempt a =>
    rw [hissuer] at hexec
    refine h.move (h.bound.trans_eq (length_updateClient _ _ _).symm)
      (fun attempt hmem i point hstage ↦ ?_) fun issuer hawaits ↦ Or.inr ?_
    · rw [settle, length_updateClient]
      obtain ⟨j, hget⟩ := List.mem_iff_getElem?.mp hmem
      change (p.attempts.modify a _)[j]? = _ at hget
      rw [List.getElem?_modify, Option.map_eq_map] at hget
      obtain ⟨attempt', hget', heq⟩ := Option.map_eq_some_iff.mp hget
      refine h.client attempt' (List.mem_of_getElem? hget') i point ?_
      rw [← hstage, ← heq]
      split <;> rfl
    · cases issuer with
      | call i => exact ⟨hawaits, hexec _ nofun⟩
      | attempt a' =>
        obtain ⟨attempt, hget, hnone, i, point, hstage⟩ := hawaits
        change (p.attempts.modify a _)[a']? = _ at hget
        by_cases ha : a = a'
        · subst ha
          rw [List.getElem?_modify_eq, Option.map_eq_map] at hget
          obtain ⟨attempt', -, rfl⟩ := Option.map_eq_some_iff.mp hget
          cases hnone
        · rw [List.getElem?_modify_ne _ _ ha] at hget
          exact ⟨⟨attempt, hget, hnone, i, point, hstage⟩, hexec _ fun heq ↦
            ha (Issuer.attempt.inj heq).symm⟩

/-- **Step lemma.** -/
theorem Awaited.step (h : Awaited p) {e : PgEvent} (hstep : p.step e = some p') : Awaited p' := by
  cases e with
  | subscribe R =>
    cases hstep
    exact h.subscribe R
  | unsubscribe R =>
    cases hstep
    exact h.unsubscribe R
  | execCommand c ok =>
    simp only [PostgresService.step, Option.bind_eq_bind, Option.bind_eq_some_iff] at hstep
    obtain ⟨cl, hcl, -, -, hstep⟩ := hstep
    split at hstep
    · cases hstep
    · rename_i cmd rest hqueue
      cases hstep
      exact h.execCommand hcl hqueue rfl ok
  | resumeCall id =>
    simp only [PostgresService.step, Option.bind_eq_bind, Option.bind_eq_some_iff] at hstep
    obtain ⟨call, -, hstep⟩ := hstep
    -- Whether it resolves or rejects, a call that has returned awaits no command.
    have hreturned : ∀ {q : PostgresService} (ok : Bool), q.calls = p.calls →
        q.attempts = p.attempts → q.listenClient = p.listenClient → q.clients = p.clients →
        Awaited (q.setCall id { call with status := .returned ok }) := by
      intro q ok hcalls hattempts hclient hclients
      refine h.move ?_ (fun attempt hmem c point hstage ↦ ?_) fun issuer hawaits ↦
        Or.inr ⟨?_, .of_clients_eq hclients⟩
      · exact (hclient.trans_lt h.bound).trans_eq (congrArg List.length hclients).symm
      · exact (h.client attempt (hattempts ▸ hmem) c point hstage).trans_eq
          (congrArg List.length hclients).symm
      · cases issuer with
        | call i =>
          obtain ⟨call', hget, hwaiting⟩ := Option.map_eq_some_iff.mp hawaits
          rcases Lists.of_getElem?_set hget with ⟨-, hold⟩ | ⟨rfl, rfl⟩
          · exact Option.map_eq_some_iff.mpr ⟨call', hcalls ▸ hold, hwaiting⟩
          · cases hwaiting
        | attempt a =>
          change ∃ attempt, q.attempts[a]? = some attempt ∧ _ at hawaits
          rwa [hattempts] at hawaits
    split at hstep
    · cases hstep
      exact hreturned true rfl rfl rfl rfl
    · cases hstep
      exact hreturned (q := p.rollback call.kind) false (by cases call.kind <;> rfl)
        (by cases call.kind <;> rfl) (by cases call.kind <;> rfl) (by cases call.kind <;> rfl)
    all_goals cases hstep
  | clientError c =>
    simp only [PostgresService.step, Option.bind_eq_bind, Option.bind_eq_some_iff] at hstep
    obtain ⟨cl, -, -, -, hstep⟩ := hstep
    cases hstep
    exact .scheduleReconnect (h.keepQueue c fun _ ↦ rfl)
  | reconnectTimerFires =>
    rw [PostgresService.step] at hstep
    split at hstep
    · cases hstep
      rw [doReconnect]
      split
      · exact h.frame rfl rfl rfl rfl fun _ ↦ id
      · have hold : Awaited (p.updateClient p.listenClient fun cl ↦
            { cl with wired := false, ended := true }) :=
          h.keepQueue _ fun _ ↦ rfl
        refine hold.move hold.bound (fun attempt hmem c point hstage ↦ ?_) fun issuer hawaits ↦
          Or.inr ⟨?_, id⟩
        · rcases List.mem_append.mp hmem with hmem | hmem
          · exact hold.client attempt hmem c point hstage
          · rw [List.mem_singleton.mp hmem] at hstage
            cases hstage
        · cases issuer with
          | call id => exact hawaits
          | attempt a =>
            obtain ⟨attempt, hget, hnone, c, point, hstage⟩ := hawaits
            rcases Lists.getElem?_concat_eq_some.mp hget with hget | ⟨-, rfl⟩
            · exact ⟨attempt, hget, hnone, c, point, hstage⟩
            · cases hstage
    · cases hstep
  | endSettles a =>
    simp only [PostgresService.step, Option.bind_eq_bind, Option.bind_eq_some_iff] at hstep
    obtain ⟨attempt, -, -, -, hstep⟩ := hstep
    cases hstep
    have hset : Awaited (p.setAttempt a { attempt with stage := .connecting p.clients.length }) :=
      h.setAttempt nofun
    refine hset.move ?_ (fun attempt' hmem c point hstage ↦ ?_) fun issuer hawaits ↦
      Or.inr ⟨hawaits, fun ⟨c, cl, hget, hmem⟩ ↦ ?_⟩
    · rw [PostgresService.installClient, List.length_append]
      exact Nat.lt_succ_self _
    · rw [PostgresService.installClient, List.length_append]
      exact (hset.client attempt' hmem c point hstage).trans (Nat.lt_succ_self _)
    · exact ⟨c, cl, Lists.getElem?_concat_eq_some.mpr (Or.inl hget), hmem⟩
  | connectSettles a ok =>
    simp only [PostgresService.step, Option.bind_eq_bind, Option.bind_eq_some_iff] at hstep
    obtain ⟨attempt, -, hstep⟩ := hstep
    split at hstep
    · rename_i c hstage hsettled
      cases hstep
      have hconnected : Awaited (p.updateClient c fun cl ↦ { cl with connected := ok }) :=
        h.keepQueue c fun _ ↦ rfl
      refine hconnected.setAttempt fun i point hi ↦ ?_
      rw [hstage] at hi
      cases hi
    · cases hstep
  | resumeAttempt a =>
    simp only [PostgresService.step, Option.bind_eq_bind, Option.bind_eq_some_iff] at hstep
    obtain ⟨attempt, hget, hstep⟩ := hstep
    split at hstep
    · exact h.continueAttempt hget hstep
    · cases hstep
      have hfailed : Awaited (p.setAttempt a { attempt with stage := .failed, settled := none }) :=
        h.setAttempt nofun
      rw [failAttempt]
      split
      · exact hfailed
      · exact hfailed.scheduleReconnect
    · cases hstep
  | notify note =>
    cases hstep
    refine h.frame rfl rfl rfl (List.length_map _) fun issuer ⟨c, cl, hget, hmem⟩ ↦ ?_
    refine ⟨c, _, by rw [PostgresService.notify, List.getElem?_map, hget, Option.map_some], ?_⟩
    split <;> exact hmem
  | deliver c =>
    simp only [PostgresService.step, Option.bind_eq_bind, Option.bind_eq_some_iff] at hstep
    obtain ⟨cl, -, -, -, hstep⟩ := hstep
    cases hstep
    exact h.keepQueue c fun _ ↦ rfl
  | destroy =>
    cases hstep
    have hended : Awaited (p.updateClient p.listenClient fun cl ↦ { cl with ended := true }) :=
      h.keepQueue _ fun _ ↦ rfl
    exact hended.frame rfl rfl rfl rfl fun _ ↦ id

end PostgresService

end PostgresChat
