import PostgresChat.Postgres.Reconnect

/-!
# Shutting down

`onModuleDestroy` ends the client that `this.listenClient` holds when it is called, and stops the
timer. It has no hold on a client that came out of the hands of the service before, or that is
installed after it: `doReconnect` reads `destroyed` before it waits for the old client to end, not
when it goes on.

A connection is `Held` when the service can still end it: it is the one of the current client, and
`onModuleDestroy` has yet to come. What makes a run safe is that no step lets a connection out of
reach, `InReach`, and a step that does not meet this condition leaves behind a connection which
nothing in the service closes (`held_step_iff`).
-/

namespace PostgresChat

open Execution

namespace PostgresService

/-! ## Connections -/

/-- Client `c` has an open connection. -/
def Open (p : PostgresService) (c : ℕ) : Prop :=
  ∃ cl, p.clients[c]? = some cl ∧ cl.alive = true

/-- The service can still end every open connection. -/
def Held (p : PostgresService) : Prop := ∀ c, p.Open c → c = p.listenClient ∧ p.destroyed = false

/-- A step lets no connection out of reach: the current client is replaced only when it has no open
connection, and a client that connects has been ended, has failed, or is the current one of a
service that is not destroyed. -/
def InReach (p : PostgresService) : PgEvent → Prop
  | .endSettles _ => ¬ p.Open p.listenClient
  | .connectSettles a true => ∀ attempt ∈ p.attempts[a]?, ∀ c ∈ attempt.stage.client?,
      ∀ cl ∈ p.clients[c]?, cl.errored = false → cl.ended = false →
        c = p.listenClient ∧ p.destroyed = false
  | _ => True

instance (p : PostgresService) (c : ℕ) : Decidable (p.Open c) :=
  inferInstanceAs (Decidable (∃ cl ∈ p.clients[c]?, cl.alive = true))

instance (p : PostgresService) : (e : PgEvent) → Decidable (p.InReach e)
  | .endSettles _ => inferInstanceAs (Decidable (¬ p.Open p.listenClient))
  | .connectSettles a true => inferInstanceAs (Decidable (∀ attempt ∈ p.attempts[a]?,
      ∀ c ∈ attempt.stage.client?, ∀ cl ∈ p.clients[c]?, cl.errored = false → cl.ended = false →
        c = p.listenClient ∧ p.destroyed = false))
  | .connectSettles _ false | .subscribe _ | .unsubscribe _ | .execCommand .. | .resumeCall _
  | .clientError _ | .reconnectTimerFires | .resumeAttempt _ | .notify _ | .deliver _
  | .destroy => isTrue trivial

/-- `onModuleDestroy` was called and no attempt is under way. -/
def ShutDown (p : PostgresService) : Prop :=
  p.destroyed = true ∧ ∀ attempt ∈ p.attempts, attempt.stage.underWay = false

instance (p : PostgresService) : Decidable p.ShutDown :=
  inferInstanceAs (Decidable (p.destroyed = true ∧ _))

/-- No LISTEN connection is open and no timer is armed. -/
def Closed (p : PostgresService) : Prop := (∀ c, ¬ p.Open c) ∧ p.reconnectTimer = false

variable {p p' : PostgresService}

theorem alive_iff {cl : Client} :
    cl.alive = true ↔ cl.connected = true ∧ cl.errored = false ∧ cl.ended = false := by
  rw [Client.alive, Bool.and_eq_true, Bool.and_eq_true, Bool.not_eq_true', Bool.not_eq_true',
    and_assoc]

theorem held_start (nodeId : JsString) : (start nodeId).Held := by
  rintro c ⟨cl, hget, halive⟩
  obtain rfl : cl = {} := List.mem_singleton.mp (List.mem_of_getElem? hget)
  cases halive

theorem Open.of_clients_eq {c : ℕ} (hclients : p'.clients = p.clients) (h : p'.Open c) :
    p.Open c := by
  rwa [Open, hclients] at h

/-- No update but that of a connecting client opens a connection. -/
theorem Open.of_updateClient {c i : ℕ} {f : Client → Client}
    (h : (p.updateClient c f).Open i) (hf : ∀ cl, (f cl).alive = true → cl.alive = true) :
    p.Open i := by
  obtain ⟨cl', hget, halive⟩ := h
  rw [getElem?_updateClient] at hget
  split at hget
  · obtain ⟨cl, hold, rfl⟩ := Option.map_eq_some_iff.mp hget
    exact ⟨cl, hold, hf cl halive⟩
  · exact ⟨cl', hget, halive⟩

theorem Open.of_clientQuery {c i : ℕ} {cmd : Command} (h : (p.clientQuery c cmd).Open i) :
    p.Open i := Open.of_updateClient h fun _ ↦ id

@[simp] theorem clients_settle (issuer : Issuer) (ok : Bool) :
    (p.settle issuer ok).clients = p.clients := by
  cases issuer <;> rfl

@[simp] theorem clients_scheduleReconnect : p.scheduleReconnect.clients = p.clients := by
  rw [scheduleReconnect]
  split <;> rfl

@[simp] theorem clients_rollback (kind : CallKind) : (p.rollback kind).clients = p.clients := by
  cases kind <;> rfl

@[simp] theorem clients_failAttempt (a : ℕ) (attempt : Attempt) :
    (p.failAttempt a attempt).clients = p.clients := by
  rw [failAttempt]
  split
  · rfl
  · exact clients_scheduleReconnect

theorem Open.of_continueAttempt {a : ℕ} {attempt : Attempt} {c : ℕ}
    (hstep : p.continueAttempt a attempt = some p') (h : p'.Open c) : p.Open c := by
  have hvisit : ∀ {d i : ℕ}, (p.visitRooms a attempt d i).Open c → p.Open c := by
    intro d i h
    rw [visitRooms] at h
    split at h
    · exact h.of_clientQuery
    · exact h
  rw [continueAttempt.eq_def] at hstep
  split at hstep
  · cases hstep
    exact h.of_clientQuery
  · cases hstep
    exact h.of_clientQuery
  · cases hstep
    exact hvisit h
  · cases hstep
    exact hvisit h
  all_goals cases hstep

/-- **How a connection comes to be open**: it was, or its client connects. -/
theorem open_of_step {e : PgEvent} {c : ℕ} (hstep : p.step e = some p') (h : p'.Open c) :
    p.Open c ∨ ∃ a attempt cl, e = .connectSettles a true ∧ p.attempts[a]? = some attempt ∧
      attempt.stage = .connecting c ∧ p.clients[c]? = some cl ∧ cl.errored = false ∧
      cl.ended = false := by
  cases e with
  | connectSettles a ok =>
    simp only [step, Option.bind_eq_bind, Option.bind_eq_some_iff] at hstep
    obtain ⟨attempt, hget, hstep⟩ := hstep
    split at hstep
    · rename_i d hstage hsettled
      cases hstep
      obtain ⟨cl', hcl', halive⟩ := h
      change (p.updateClient d _).clients[c]? = _ at hcl'
      rw [getElem?_updateClient] at hcl'
      split at hcl'
      · rename_i hd
        subst hd
        obtain ⟨cl, hcl, rfl⟩ := Option.map_eq_some_iff.mp hcl'
        obtain ⟨hok, herrored, hended⟩ := alive_iff.mp halive
        obtain rfl : ok = true := hok
        exact Or.inr ⟨a, attempt, cl, rfl, hget, hstage, hcl, herrored, hended⟩
      · exact Or.inl ⟨cl', hcl', halive⟩
    · cases hstep
  | subscribe R =>
    cases hstep
    rw [subscribeToRoomChannel] at h
    split at h
    · exact Or.inl (Open.of_clientQuery (p := p.setRoomCount R _) h)
    · exact Or.inl h
  | unsubscribe R =>
    cases hstep
    rw [unsubscribeFromRoomChannel] at h
    split at h
    · exact Or.inl h
    · split at h
      · exact Or.inl h
      · exact Or.inl (Open.of_clientQuery (p := p.deleteRoomCount R) h)
  | execCommand d ok =>
    simp only [step, Option.bind_eq_bind, Option.bind_eq_some_iff] at hstep
    obtain ⟨cl, -, -, -, hstep⟩ := hstep
    split at hstep
    · cases hstep
    · cases hstep
      exact Or.inl ((h.of_clients_eq (clients_settle _ _)).of_updateClient fun _ ↦ id)
  | resumeCall id =>
    simp only [step, Option.bind_eq_bind, Option.bind_eq_some_iff] at hstep
    obtain ⟨call, -, hstep⟩ := hstep
    split at hstep
    · cases hstep
      exact Or.inl h
    · cases hstep
      exact Or.inl (h.of_clients_eq (clients_rollback _))
    all_goals cases hstep
  | clientError d =>
    simp only [step, Option.bind_eq_bind, Option.bind_eq_some_iff] at hstep
    obtain ⟨cl, -, -, -, hstep⟩ := hstep
    cases hstep
    refine Or.inl ((h.of_clients_eq clients_scheduleReconnect).of_updateClient fun cl halive ↦ ?_)
    cases (alive_iff.mp halive).2.1
  | reconnectTimerFires =>
    rw [step] at hstep
    split at hstep
    · cases hstep
      rw [doReconnect] at h
      split at h
      · exact Or.inl h
      · refine Or.inl (Open.of_updateClient (p := p) (c := p.listenClient)
          (f := fun cl ↦ { cl with wired := false, ended := true }) h fun cl halive ↦ ?_)
        cases (alive_iff.mp halive).2.2
    · cases hstep
  | endSettles a =>
    simp only [step, Option.bind_eq_bind, Option.bind_eq_some_iff] at hstep
    obtain ⟨attempt, -, -, -, hstep⟩ := hstep
    cases hstep
    obtain ⟨cl, hget, halive⟩ := h
    rcases Lists.getElem?_concat_eq_some.mp hget with hget | ⟨-, rfl⟩
    · exact Or.inl ⟨cl, hget, halive⟩
    · cases halive
  | resumeAttempt a =>
    simp only [step, Option.bind_eq_bind, Option.bind_eq_some_iff] at hstep
    obtain ⟨attempt, -, hstep⟩ := hstep
    split at hstep
    · exact Or.inl (h.of_continueAttempt hstep)
    · cases hstep
      exact Or.inl (h.of_clients_eq (clients_failAttempt _ _))
    · cases hstep
  | notify note =>
    cases hstep
    obtain ⟨cl', hget, halive⟩ := h
    change (p.clients.map _)[c]? = _ at hget
    rw [List.getElem?_map] at hget
    obtain ⟨cl, hold, rfl⟩ := Option.map_eq_some_iff.mp hget
    refine Or.inl ⟨cl, hold, ?_⟩
    split at halive <;> exact halive
  | deliver d =>
    simp only [step, Option.bind_eq_bind, Option.bind_eq_some_iff] at hstep
    obtain ⟨cl, -, -, -, hstep⟩ := hstep
    cases hstep
    exact Or.inl (h.of_updateClient fun _ ↦ id)
  | destroy =>
    cases hstep
    have h : (p.updateClient p.listenClient _).Open c := h
    refine Or.inl (h.of_updateClient fun cl halive ↦ ?_)
    cases (alive_iff.mp halive).2.2

/-! ## The reconnect loop -/

/-- The state of the reconnect loop: the current client, the flag, the timer, and how far the
attempts have come. -/
def loop (p : PostgresService) : ℕ × Bool × Bool × List AttemptStage :=
  (p.listenClient, p.destroyed, p.reconnectTimer, p.attempts.map Attempt.stage)

/-- The events that drive the reconnect loop. -/
def Drives : PgEvent → Prop
  | .clientError _ | .reconnectTimerFires | .endSettles _ | .connectSettles .. | .resumeAttempt _
  | .destroy => True
  | .subscribe _ | .unsubscribe _ | .execCommand .. | .resumeCall _ | .notify _ | .deliver _ =>
      False

theorem loop_settle (issuer : Issuer) (ok : Bool) : (p.settle issuer ok).loop = p.loop := by
  cases issuer with
  | call id => rfl
  | attempt a =>
    change (_, _, _, (p.attempts.modify a fun attempt ↦ { attempt with settled := some ok }).map
      Attempt.stage) = _
    have hstages : (p.attempts.modify a fun attempt ↦ { attempt with settled := some ok }).map
        Attempt.stage = p.attempts.map Attempt.stage := by
      refine List.ext_getElem? fun i ↦ ?_
      rw [List.getElem?_map, List.getElem?_map, List.getElem?_modify]
      cases p.attempts[i]? with
      | none => rfl
      | some attempt =>
        by_cases hi : a = i
        · simp only [hi, if_true, Option.map_eq_map, Option.map_some]
        · simp only [hi, if_false, Option.map_eq_map, Option.map_some]
    rw [hstages]
    rfl

theorem loop_setAttempt (a : ℕ) (attempt : Attempt) :
    (p.setAttempt a attempt).loop = (p.listenClient, p.destroyed, p.reconnectTimer,
      (p.attempts.map Attempt.stage).set a attempt.stage) := by
  rw [loop, setAttempt, List.map_set]

/-- Nothing else changes the loop. -/
theorem loop_of_step {e : PgEvent} (he : ¬ Drives e) (hstep : p.step e = some p') :
    p'.loop = p.loop := by
  cases e with
  | subscribe R =>
    cases hstep
    rw [subscribeToRoomChannel]
    split <;> rfl
  | unsubscribe R =>
    cases hstep
    rw [unsubscribeFromRoomChannel]
    split
    · rfl
    · split <;> rfl
  | execCommand c ok =>
    simp only [step, Option.bind_eq_bind, Option.bind_eq_some_iff] at hstep
    obtain ⟨cl, -, -, -, hstep⟩ := hstep
    split at hstep
    · cases hstep
    · cases hstep
      rw [loop_settle]
      rfl
  | resumeCall id =>
    simp only [step, Option.bind_eq_bind, Option.bind_eq_some_iff] at hstep
    obtain ⟨call, -, hstep⟩ := hstep
    split at hstep
    · cases hstep
      rfl
    · cases hstep
      cases call.kind <;> rfl
    all_goals cases hstep
  | notify note =>
    cases hstep
    rfl
  | deliver c =>
    simp only [step, Option.bind_eq_bind, Option.bind_eq_some_iff] at hstep
    obtain ⟨cl, -, -, -, hstep⟩ := hstep
    cases hstep
    rfl
  | _ => exact absurd trivial he

/-- What `continueAttempt` does to the loop: the attempt comes further, and it was under way. -/
theorem loop_of_continueAttempt {a : ℕ} {attempt : Attempt}
    (hstep : p.continueAttempt a attempt = some p') :
    attempt.stage.underWay = true ∧
      ∃ stage, p'.loop = (p.listenClient, p.destroyed, p.reconnectTimer,
        (p.attempts.map Attempt.stage).set a stage) := by
  have hvisit : ∀ c i, ∃ stage, (p.visitRooms a attempt c i).loop =
      (p.listenClient, p.destroyed, p.reconnectTimer,
        (p.attempts.map Attempt.stage).set a stage) := by
    intro c i
    rw [visitRooms]
    split
    · exact ⟨_, loop_setAttempt (p := p.clientQuery c _) a _⟩
    · exact ⟨_, loop_setAttempt (p := { p with reconnectBackoffMs := _ }) a
        { attempt with stage := .finished c, settled := none }⟩
  rw [continueAttempt.eq_def] at hstep
  split at hstep
  · rename_i hstage
    cases hstep
    exact ⟨by rw [hstage]; rfl, _, loop_setAttempt (p := p.clientQuery p.listenClient _) a _⟩
  · rename_i c hstage
    cases hstep
    exact ⟨by rw [hstage]; rfl, _, loop_setAttempt (p := p.clientQuery c _) a _⟩
  · rename_i c hstage
    cases hstep
    exact ⟨by rw [hstage]; rfl, hvisit c 0⟩
  · rename_i c i hstage
    cases hstep
    exact ⟨by rw [hstage]; rfl, hvisit c i⟩
  all_goals cases hstep

theorem loop_scheduleReconnect (p : PostgresService) :
    ∃ timer, p.scheduleReconnect.loop =
        (p.listenClient, p.destroyed, timer, p.attempts.map Attempt.stage) ∧
      (p.destroyed = true → timer = p.reconnectTimer) := by
  rw [scheduleReconnect]
  split
  · exact ⟨_, rfl, fun _ ↦ rfl⟩
  · rename_i hnot
    exact ⟨_, rfl, fun hdestroyed ↦ absurd (Bool.or_eq_true_iff.mpr (Or.inl hdestroyed)) hnot⟩

/-- A failed attempt is over; the timer may be armed, unless the service is destroyed. -/
theorem loop_failAttempt (p : PostgresService) (a : ℕ) (attempt : Attempt) :
    ∃ timer, (p.failAttempt a attempt).loop = (p.listenClient, p.destroyed, timer,
        (p.attempts.map Attempt.stage).set a .failed) ∧
      (p.destroyed = true → timer = p.reconnectTimer) := by
  have hfailed := loop_setAttempt (p := p) a { attempt with stage := .failed, settled := none }
  rw [failAttempt]
  split
  · exact ⟨_, hfailed, fun _ ↦ rfl⟩
  · obtain ⟨timer, hloop, htimer⟩ := loop_scheduleReconnect
      (p.setAttempt a { attempt with stage := .failed, settled := none })
    refine ⟨timer, hloop.trans ?_, htimer⟩
    rw [setAttempt, List.map_set]

/-- What a step may do to the loop: only `doReconnect` replaces the current client, when the old one
has ended, only `onModuleDestroy` sets the flag, and once the flag is set no timer is armed and no
attempt starts. -/
structure Moved (p : PostgresService) (e : PgEvent) (p' : PostgresService) : Prop where
  listenClient : p'.listenClient = p.listenClient ∨ ∃ a, e = .endSettles a
  destroyed : p'.destroyed = p.destroyed ∨ e = .destroy ∧ p'.destroyed = true
  timer : p.destroyed = true → p'.reconnectTimer = true → p.reconnectTimer = true
  underWay : p.destroyed = true → ∀ stage ∈ p'.attempts.map Attempt.stage, stage.underWay = true →
    ∃ stage ∈ p.attempts.map Attempt.stage, stage.underWay = true

theorem Moved.of_loop {e : PgEvent} {timer : Bool} {stages : List AttemptStage}
    (hloop : p'.loop = (p.listenClient, p.destroyed, timer, stages))
    (htimer : p.destroyed = true → timer = true → p.reconnectTimer = true)
    (hstages : p.destroyed = true → ∀ stage ∈ stages, stage.underWay = true →
      ∃ stage ∈ p.attempts.map Attempt.stage, stage.underWay = true) : Moved p e p' := by
  rw [loop, Prod.mk.injEq, Prod.mk.injEq, Prod.mk.injEq] at hloop
  obtain ⟨hclient, hdestroyed, rfl, rfl⟩ := hloop
  exact ⟨Or.inl hclient, Or.inl hdestroyed, htimer, hstages⟩

/-- The loop comes no further. -/
theorem Moved.of_loop_eq {e : PgEvent} (hloop : p'.loop = p.loop) : Moved p e p' :=
  Moved.of_loop hloop (fun _ ↦ id) fun _ stage hmem hway ↦ ⟨stage, hmem, hway⟩

theorem moved_of_step {e : PgEvent} (hstep : p.step e = some p') : Moved p e p' := by
  by_cases hdrives : Drives e
  · cases e with
    | clientError c =>
      simp only [step, Option.bind_eq_bind, Option.bind_eq_some_iff] at hstep
      obtain ⟨cl, -, -, -, hstep⟩ := hstep
      cases hstep
      obtain ⟨timer, hloop, htimer⟩ := loop_scheduleReconnect
        (p.updateClient c fun cl ↦ { cl with errored := true })
      refine Moved.of_loop hloop (fun hdestroyed hset ↦ ?_) fun _ stage hmem hway ↦
        ⟨stage, hmem, hway⟩
      exact (htimer hdestroyed).symm.trans hset
    | reconnectTimerFires =>
      rw [step] at hstep
      split at hstep
      · cases hstep
        rw [doReconnect]
        split
        · exact Moved.of_loop rfl (fun _ h ↦ by cases h) fun _ stage hmem hway ↦ ⟨stage, hmem, hway⟩
        · rename_i hnot
          exact ⟨Or.inl rfl, Or.inl rfl, fun hdestroyed ↦ absurd hdestroyed hnot,
            fun hdestroyed ↦ absurd hdestroyed hnot⟩
      · cases hstep
    | endSettles a =>
      simp only [step, Option.bind_eq_bind, Option.bind_eq_some_iff,
        Option.guard_eq_some'] at hstep
      obtain ⟨attempt, hget, -, hending, hstep⟩ := hstep
      cases hstep
      refine ⟨Or.inr ⟨a, rfl⟩, Or.inl rfl, fun _ ↦ id, fun _ stage _ _ ↦ ?_⟩
      refine ⟨attempt.stage, List.mem_map_of_mem (List.mem_of_getElem? hget), ?_⟩
      rw [hending]
      rfl
    | connectSettles a ok =>
      simp only [step, Option.bind_eq_bind, Option.bind_eq_some_iff] at hstep
      obtain ⟨attempt, hget, hstep⟩ := hstep
      split at hstep
      · rename_i c hstage hsettled
        cases hstep
        refine Moved.of_loop (loop_setAttempt (p := p.updateClient c _) a _) (fun _ ↦ id)
          fun _ _ _ _ ↦ ⟨attempt.stage, List.mem_map_of_mem (List.mem_of_getElem? hget), ?_⟩
        rw [hstage]
        rfl
      · cases hstep
    | resumeAttempt a =>
      simp only [step, Option.bind_eq_bind, Option.bind_eq_some_iff] at hstep
      obtain ⟨attempt, hget, hstep⟩ := hstep
      split at hstep
      · obtain ⟨hway, stage, hloop⟩ := loop_of_continueAttempt hstep
        exact Moved.of_loop hloop (fun _ ↦ id) fun _ _ _ _ ↦
          ⟨attempt.stage, List.mem_map_of_mem (List.mem_of_getElem? hget), hway⟩
      · cases hstep
        obtain ⟨timer, hloop, htimer⟩ := loop_failAttempt p a attempt
        refine Moved.of_loop hloop (fun hdestroyed hset ↦ (htimer hdestroyed).symm.trans hset)
          fun _ stage hmem hway ↦ ?_
        rcases List.mem_or_eq_of_mem_set hmem with hmem | rfl
        · exact ⟨stage, hmem, hway⟩
        · cases hway
      · cases hstep
    | destroy =>
      cases hstep
      exact ⟨Or.inl rfl, Or.inr ⟨rfl, rfl⟩, fun _ h ↦ (by cases h),
        fun _ stage hmem hway ↦ ⟨stage, hmem, hway⟩⟩
    | _ => exact hdrives.elim
  · exact Moved.of_loop_eq (loop_of_step hdrives hstep)

/-! ## Connections out of reach -/

/-- `onModuleDestroy` ends the current client. -/
theorem not_open_of_destroy (hstep : p.step .destroy = some p') : ¬ p'.Open p.listenClient := by
  cases hstep
  rintro ⟨cl', hget, halive⟩
  change (p.updateClient p.listenClient _).clients[p.listenClient]? = _ at hget
  rw [getElem?_updateClient, if_pos rfl] at hget
  obtain ⟨cl, -, rfl⟩ := Option.map_eq_some_iff.mp hget
  cases (alive_iff.mp halive).2.2

/-- A current client that is replaced while it has an open connection keeps it. -/
theorem open_of_endSettles {a : ℕ} (hstep : p.step (.endSettles a) = some p')
    (h : p.Open p.listenClient) : p'.Open p.listenClient ∧ p.listenClient ≠ p'.listenClient := by
  obtain ⟨cl, hget, halive⟩ := h
  have hlt : p.listenClient < p.clients.length := (List.getElem?_eq_some_iff.mp hget).1
  simp only [step, Option.bind_eq_bind, Option.bind_eq_some_iff] at hstep
  obtain ⟨attempt, -, -, -, hstep⟩ := hstep
  cases hstep
  refine ⟨⟨cl, ?_, halive⟩, hlt.ne⟩
  exact Lists.getElem?_concat_eq_some.mpr (Or.inl hget)

theorem open_of_connectSettles {a c : ℕ} {attempt : Attempt} {cl : Client}
    (hstep : p.step (.connectSettles a true) = some p') (hget : p.attempts[a]? = some attempt)
    (hc : attempt.stage.client? = some c) (hcl : p.clients[c]? = some cl)
    (herrored : cl.errored = false) (hended : cl.ended = false) : p'.Open c := by
  simp only [step, Option.bind_eq_bind, hget, Option.bind_some] at hstep
  split at hstep
  · rename_i c' hstage hsettled
    cases hstep
    rw [hstage] at hc
    obtain rfl : c' = c := Option.some.inj hc
    refine ⟨{ cl with connected := true }, ?_, alive_iff.mpr ⟨rfl, herrored, hended⟩⟩
    change (p.updateClient c' _).clients[c']? = _
    rw [getElem?_updateClient, if_pos rfl, hcl, Option.map_some]
  · cases hstep

/-- **Step lemma.** As long as every connection is held, a step keeps them so exactly when it lets
none out of reach. -/
theorem held_step_iff (h : p.Held) {e : PgEvent} (hstep : p.step e = some p') :
    p'.Held ↔ p.InReach e := by
  have hmoved := moved_of_step hstep
  constructor
  · intro hheld
    cases e with
    | endSettles a =>
      intro hopen
      obtain ⟨hopen', hne⟩ := open_of_endSettles hstep hopen
      exact hne (hheld _ hopen').1
    | connectSettles a ok =>
      cases ok with
      | false => trivial
      | true =>
        intro attempt hget c hc cl hcl herrored hended
        obtain ⟨hc, hdestroyed⟩ :=
          hheld c (open_of_connectSettles hstep hget hc hcl herrored hended)
        rcases hmoved.listenClient with hclient | ⟨a', ⟨⟩⟩
        rcases hmoved.destroyed with hsame | ⟨⟨⟩, -⟩
        exact ⟨hc.trans hclient, hsame.symm.trans hdestroyed⟩
    | _ => trivial
  · intro hreach c hopen
    rcases open_of_step hstep hopen with
      hold | ⟨a, attempt, cl, rfl, hget, hstage, hcl, herrored, hended⟩
    · obtain ⟨rfl, hdestroyed⟩ := h c hold
      constructor
      · rcases hmoved.listenClient with hclient | ⟨a, rfl⟩
        · exact hclient.symm
        · exact absurd hold hreach
      · rcases hmoved.destroyed with hsame | ⟨rfl, -⟩
        · exact hsame.trans hdestroyed
        · exact absurd hopen (not_open_of_destroy hstep)
    · obtain ⟨hc, hdestroyed⟩ := hreach attempt hget c (by rw [hstage]; rfl) cl hcl herrored hended
      rcases hmoved.listenClient with hclient | ⟨a', ⟨⟩⟩
      rcases hmoved.destroyed with hsame | ⟨⟨⟩, -⟩
      exact ⟨hc.trans hclient.symm, hsame.trans hdestroyed⟩

/-- **Run lemma.** While no step lets a connection out of reach, all are held. -/
theorem held_of_run {nodeId : JsString} {es : List PgEvent}
    (hguard : Guarded step InReach (start nodeId) es) (hrun : run step (start nodeId) es = some p) :
    p.Held :=
  guarded_invariant Held (fun h hreach hstep ↦ (held_step_iff h hstep).mpr hreach)
    (held_start nodeId) hguard hrun

/-! ## After the shutdown -/

/-- After `onModuleDestroy` no timer is armed. -/
def Stopped (p : PostgresService) : Prop := p.destroyed = true → p.reconnectTimer = false

theorem Stopped.step (h : p.Stopped) {e : PgEvent} (hstep : p.step e = some p') : p'.Stopped := by
  have hmoved := moved_of_step hstep
  intro hdestroyed
  rcases hmoved.destroyed with hsame | ⟨rfl, -⟩
  · have hold : p.destroyed = true := hsame.symm.trans hdestroyed
    by_contra hset
    have htimer := hmoved.timer hold (Bool.eq_true_of_not_eq_false hset)
    rw [h hold] at htimer
    cases htimer
  · cases hstep
    rfl

/-- A service that is shut down stays so, and none of its connections opens any more. -/
theorem shutDown_step (h : p.ShutDown ∧ p.Closed) {e : PgEvent} (hstep : p.step e = some p') :
    p'.ShutDown ∧ p'.Closed := by
  obtain ⟨⟨hdestroyed, hover⟩, hnone, htimer⟩ := h
  have hmoved := moved_of_step hstep
  have hstopped : p.Stopped := fun _ ↦ htimer
  have hdestroyed' : p'.destroyed = true := by
    rcases hmoved.destroyed with hsame | ⟨-, hset⟩
    · exact hsame.trans hdestroyed
    · exact hset
  refine ⟨⟨hdestroyed', fun attempt hmem ↦ ?_⟩, fun c hopen ↦ ?_, hstopped.step hstep hdestroyed'⟩
  · by_contra hway
    obtain ⟨stage, hmem, hway⟩ := hmoved.underWay hdestroyed attempt.stage
      (List.mem_map_of_mem hmem) (Bool.eq_true_of_not_eq_false hway)
    obtain ⟨attempt', hmem', rfl⟩ := List.mem_map.mp hmem
    rw [hover attempt' hmem'] at hway
    cases hway
  · rcases open_of_step hstep hopen with hold | ⟨a, attempt, cl, rfl, hget, hstage, -⟩
    · exact hnone c hold
    · have hway := hover attempt (List.mem_of_getElem? hget)
      rw [hstage] at hway
      cases hway

/-- **Shutting down closes the LISTEN connection for good**, in a run that lets no connection out of
reach. -/
theorem closed_of_shutDown {nodeId : JsString} {es : List PgEvent}
    (hguard : Guarded step InReach (start nodeId) es) (hrun : run step (start nodeId) es = some p)
    (hshut : p.ShutDown) : p.Closed ∧ ∀ fs p', run step p fs = some p' → p'.Closed := by
  have hheld := held_of_run hguard hrun
  have hstopped : p.Stopped :=
    run_invariant Stopped (fun h hstep ↦ h.step hstep) (fun h ↦ by cases h) hrun
  have hclosed : p.Closed := by
    refine ⟨fun c hopen ↦ ?_, hstopped hshut.1⟩
    have hdestroyed := (hheld c hopen).2
    rw [hshut.1] at hdestroyed
    cases hdestroyed
  refine ⟨hclosed, fun fs p' hlater ↦ ?_⟩
  exact (run_invariant (fun q ↦ q.ShutDown ∧ q.Closed) (fun h hstep ↦ shutDown_step h hstep)
    ⟨hshut, hclosed⟩ hlater).2

/-- The client fails, the service reconnects, and then it is destroyed. -/
theorem closed_of_shutDown_after_reconnect :
    ∃ p, run step (start []) [.connectSettles 0 true, .resumeAttempt 0, .execCommand 0 true,
        .resumeAttempt 0, .execCommand 0 true, .resumeAttempt 0, .clientError 0,
        .reconnectTimerFires, .endSettles 1, .connectSettles 1 true, .resumeAttempt 1,
        .execCommand 1 true, .resumeAttempt 1, .execCommand 1 true, .resumeAttempt 1,
        .destroy] = some p ∧ p.ShutDown ∧ p.Closed := by
  refine exists_run_of_any ShutDown (by decide) fun p hrun hshut ↦ ⟨hshut, ?_⟩
  exact (closed_of_shutDown (by decide) hrun hshut).1

/-- `onModuleDestroy` is called while `doReconnect` waits for the old client to end; `doReconnect`
then installs a new client, and it stays connected. -/
theorem open_after_shutDown :
    ∃ p, run step (start []) [.connectSettles 0 true, .resumeAttempt 0, .execCommand 0 true,
        .resumeAttempt 0, .execCommand 0 true, .resumeAttempt 0, .clientError 0,
        .reconnectTimerFires, .destroy, .endSettles 1, .connectSettles 1 true, .resumeAttempt 1,
        .execCommand 1 true, .resumeAttempt 1, .execCommand 1 true, .resumeAttempt 1] = some p ∧
      p.ShutDown ∧ ¬ p.Closed := by
  refine exists_run_of_any (fun p : PostgresService ↦ p.ShutDown ∧ p.Open 1) (by decide) ?_
  rintro p - ⟨hshut, hopen⟩
  exact ⟨hshut, fun hclosed ↦ hclosed.1 1 hopen⟩

end PostgresService

end PostgresChat
