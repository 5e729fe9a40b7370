import PostgresChat.Lib.Lists
import PostgresChat.Postgres.Undisturbed

/-!
# Calls and their commands

A call of `subscribeToRoomChannel` or `unsubscribeFromRoomChannel` that issues a command awaits this
one command: it is queued on one client, settles once, and then the call returns once. Whatever
happens to the connection, no command settles a call that has been settled before (`Outstanding`),
so what becomes of a call can be told from its status (`call_of_step`).
-/

namespace PostgresChat

open Execution

namespace PostgresService

variable {p p' : PostgresService} {id : ℕ}

/-- The number of commands that call `id` awaits, on all clients. -/
def queued (p : PostgresService) (id : ℕ) : ℕ :=
  (p.clients.map fun cl ↦ cl.queue.countP fun cmd ↦ cmd.issuer = .call id).sum

/-- A call that waits awaits at most one command, and no other call awaits any. -/
def Outstanding (p : PostgresService) : Prop :=
  ∀ id, p.queued id ≤ if p.calls[id]?.map Call.status = some .waiting then 1 else 0

theorem outstanding_ready (nodeId : JsString) : Outstanding (ready nodeId) := fun id ↦ by
  simp [queued, ready]

/-! ## What a step does to the queues -/

theorem queued_updateClient {c : ℕ} {f : Client → Client} (hf : ∀ cl, (f cl).queue = cl.queue)
    (id : ℕ) : (p.updateClient c f).queued id = p.queued id := by
  cases hget : p.clients[c]? with
  | none =>
    have hsame : p.clients.modify c f = p.clients :=
      List.modify_eq_self (List.getElem?_eq_none_iff.mp hget)
    change ((p.clients.modify c f).map _).sum = _
    rw [hsame]
    rfl
  | some cl =>
    have hsum := Lists.sum_map_modify (f := f)
      (fun cl ↦ cl.queue.countP fun cmd ↦ cmd.issuer = .call id) hget
    rw [hf] at hsum
    exact Nat.add_right_cancel hsum

/-- A command more. -/
theorem queued_clientQuery_le (c : ℕ) (cmd : Command) (id : ℕ) :
    (p.clientQuery c cmd).queued id ≤ p.queued id + if cmd.issuer = .call id then 1 else 0 := by
  cases hget : p.clients[c]? with
  | none =>
    have hsame : (p.clientQuery c cmd).clients = p.clients :=
      List.modify_eq_self (List.getElem?_eq_none_iff.mp hget)
    rw [queued, hsame]
    exact Nat.le_add_right _ _
  | some cl =>
    have hsum :=
      Lists.sum_map_modify (f := fun cl : Client ↦ { cl with queue := cl.queue ++ [cmd] })
      (fun cl ↦ cl.queue.countP fun cmd ↦ cmd.issuer = .call id) hget
    simp only [List.countP_append, List.countP_singleton, decide_eq_true_eq] at hsum
    change ((p.clients.modify c _).map _).sum ≤ (p.clients.map _).sum + _
    omega

/-- A command less. -/
theorem queued_exec {c : ℕ} {cl : Client} {cmd : Command} {rest : List Command}
    {f : Client → Client} (hget : p.clients[c]? = some cl) (hqueue : cl.queue = cmd :: rest)
    (hf : (f cl).queue = rest) (id : ℕ) :
    (p.updateClient c f).queued id + (if cmd.issuer = .call id then 1 else 0) = p.queued id := by
  have hsum := Lists.sum_map_modify (f := f)
    (fun cl ↦ cl.queue.countP fun cmd ↦ cmd.issuer = .call id) hget
  simp only [hf, hqueue, List.countP_cons, decide_eq_true_eq] at hsum
  change ((p.clients.modify c f).map _).sum + _ = (p.clients.map _).sum
  omega

theorem queued_of_clients_eq (h : p'.clients = p.clients) (id : ℕ) :
    p'.queued id = p.queued id := by
  rw [queued, h, queued]

/-! ## What a step does to the calls -/

/-- What a step does to the calls and to the commands they await. -/
inductive CallsMove (p : PostgresService) (e : PgEvent) (p' : PostgresService) : Prop
  | same (calls : p'.calls = p.calls) (event : ∀ id, e ≠ .resumeCall id)
      (queued : ∀ id, p'.queued id ≤ p.queued id)
  | made (kind : CallKind) (status : CallStatus) (calls : p'.calls = p.calls ++ [⟨kind, status⟩])
      (event : ∀ id, e ≠ .resumeCall id)
      (queued : ∀ id, p'.queued id ≤
        p.queued id + if status = .waiting ∧ id = p.calls.length then 1 else 0)
  | settled (c id : ℕ) (ok : Bool) (event : e = .execCommand c ok)
      (calls : p'.calls = p.calls.modify id fun call ↦ { call with status := .settled ok })
      (queued : ∀ id', p'.queued id' + (if id' = id then 1 else 0) = p.queued id')
  | returned (id : ℕ) (call : Call) (ok : Bool) (event : e = .resumeCall id)
      (get : p.calls[id]? = some call) (status : call.status = .settled ok)
      (calls : p'.calls = p.calls.set id { call with status := .returned ok })
      (queued : ∀ id, p'.queued id ≤ p.queued id)

theorem CallsMove.of_eq {e : PgEvent} (he : ∀ id, e ≠ .resumeCall id) (hcalls : p'.calls = p.calls)
    (hclients : p'.clients = p.clients) : CallsMove p e p' :=
  .same hcalls he fun id ↦ (queued_of_clients_eq hclients id).le

/-- The commands of an attempt are awaited by no call. -/
theorem queued_attempt_le (c : ℕ) (verb : Verb) (channel : Channel) (a id : ℕ) :
    (p.clientQuery c ⟨verb, channel, .attempt a⟩).queued id ≤ p.queued id :=
  (queued_clientQuery_le c _ id).trans_eq (by simp)

theorem CallsMove.of_continueAttempt {e : PgEvent} (he : ∀ id, e ≠ .resumeCall id) {a : ℕ}
    {attempt : Attempt} (hstep : p.continueAttempt a attempt = some p') : CallsMove p e p' := by
  have hvisit : ∀ c i, CallsMove p e (p.visitRooms a attempt c i) := by
    intro c i
    rw [visitRooms]
    split
    · exact .same rfl he (queued_attempt_le c _ _ a)
    · exact .of_eq he rfl rfl
  rw [continueAttempt.eq_def] at hstep
  split at hstep
  · cases hstep
    exact .same rfl he (queued_attempt_le _ _ _ a)
  · cases hstep
    exact .same rfl he (queued_attempt_le _ _ _ a)
  · cases hstep
    exact hvisit _ _
  · cases hstep
    exact hvisit _ _
  all_goals cases hstep

theorem scheduleReconnect_frame (p : PostgresService) :
    p.scheduleReconnect.calls = p.calls ∧ p.scheduleReconnect.clients = p.clients := by
  rw [scheduleReconnect]
  split <;> exact ⟨rfl, rfl⟩

/-- A call that issues a command. -/
theorem CallsMove.issue {e : PgEvent} (he : ∀ id, e ≠ .resumeCall id) {kind : CallKind}
    {q : PostgresService} (hcalls : q.calls = p.calls) (hclients : q.clients = p.clients) (c : ℕ)
    (verb : Verb)
    (channel : Channel) : CallsMove p e
      ((q.clientQuery c ⟨verb, channel, .call p.calls.length⟩).addCall kind .waiting) := by
  refine .made kind .waiting (congrArg (· ++ _) hcalls) he fun id ↦ ?_
  refine (queued_clientQuery_le c _ id).trans_eq ?_
  rw [queued_of_clients_eq hclients]
  simp only [Issuer.call.injEq, true_and, eq_comm]

theorem CallsMove.return {e : PgEvent} (he : ∀ id, e ≠ .resumeCall id) {kind : CallKind}
    {q : PostgresService} (hcalls : q.calls = p.calls) (hclients : q.clients = p.clients) :
    CallsMove p e (q.addCall kind (.returned true)) :=
  .made kind (.returned true) (congrArg (· ++ _) hcalls) he fun id ↦
    (queued_of_clients_eq hclients id).le.trans (Nat.le_add_right _ _)

theorem callsMove_of_step {e : PgEvent} (hstep : p.step e = some p') : CallsMove p e p' := by
  cases e with
  | subscribe R =>
    cases hstep
    rw [subscribeToRoomChannel]
    split
    · exact CallsMove.issue (p := p) (q := p.setRoomCount R _) (by rintro _ ⟨⟩) rfl rfl _ _ _
    · exact .return (by rintro _ ⟨⟩) rfl rfl
  | unsubscribe R =>
    cases hstep
    rw [unsubscribeFromRoomChannel]
    split
    · exact .return (by rintro _ ⟨⟩) rfl rfl
    · split
      · exact .return (by rintro _ ⟨⟩) rfl rfl
      · exact CallsMove.issue (p := p) (q := p.deleteRoomCount R) (by rintro _ ⟨⟩) rfl rfl _ _ _
  | execCommand c ok =>
    simp only [step, Option.bind_eq_bind, Option.bind_eq_some_iff] at hstep
    obtain ⟨cl, hget, -, -, hstep⟩ := hstep
    split at hstep
    · cases hstep
    · rename_i cmd rest hqueue
      cases hstep
      have hexec := queued_exec (f := fun cl' ↦ { cl' with
        queue := rest, listening := if ok then cmd.effect cl.listening else cl.listening })
        hget hqueue rfl
      cases hissuer : cmd.issuer with
      | attempt a => exact .same rfl (by rintro _ ⟨⟩) fun id ↦ Nat.le.intro (hexec id)
      | call id =>
        refine .settled c id ok rfl rfl fun id' ↦ ?_
        rw [← hexec id', hissuer]
        simp only [Issuer.call.injEq, eq_comm]
        rfl
  | resumeCall id =>
    simp only [step, Option.bind_eq_bind, Option.bind_eq_some_iff] at hstep
    obtain ⟨call, hget, hstep⟩ := hstep
    split at hstep
    · rename_i hstatus
      cases hstep
      exact .returned id call true rfl hget hstatus rfl fun _ ↦ le_rfl
    · rename_i hstatus
      cases hstep
      refine .returned id call false rfl hget hstatus ?_ fun id ↦ (queued_of_clients_eq ?_ id).le
      · cases call.kind <;> rfl
      · cases call.kind <;> rfl
    all_goals cases hstep
  | clientError c =>
    simp only [step, Option.bind_eq_bind, Option.bind_eq_some_iff] at hstep
    obtain ⟨cl, -, -, -, hstep⟩ := hstep
    cases hstep
    obtain ⟨hcalls, hclients⟩ := scheduleReconnect_frame
      (p.updateClient c fun cl ↦ { cl with errored := true })
    refine .same hcalls (by rintro _ ⟨⟩) fun id ↦ ?_
    rw [queued_of_clients_eq hclients]
    exact (queued_updateClient (f := fun cl ↦ { cl with errored := true }) (fun _ ↦ rfl) id).le
  | reconnectTimerFires =>
    simp only [step, Option.ite_none_right_eq_some, Option.some.injEq] at hstep
    obtain ⟨-, rfl⟩ := hstep
    rw [doReconnect]
    split
    · exact .of_eq (by rintro _ ⟨⟩) rfl rfl
    · refine .same rfl (by rintro _ ⟨⟩) fun id ↦ (queued_updateClient (p := p) (c := p.listenClient)
        (f := fun cl ↦ { cl with wired := false, ended := true }) (fun _ ↦ rfl) id).le
  | endSettles a =>
    simp only [step, Option.bind_eq_bind, Option.bind_eq_some_iff] at hstep
    obtain ⟨attempt, -, -, -, hstep⟩ := hstep
    cases hstep
    refine .same rfl (by rintro _ ⟨⟩) fun id ↦ ?_
    change ((p.clients ++ [_]).map _).sum ≤ (p.clients.map _).sum
    simp
  | connectSettles a ok =>
    simp only [step, Option.bind_eq_bind, Option.bind_eq_some_iff] at hstep
    obtain ⟨attempt, -, hstep⟩ := hstep
    split at hstep
    · rename_i c _ _
      cases hstep
      exact .same rfl (by rintro _ ⟨⟩) fun id ↦ (queued_updateClient (p := p) (c := c)
        (f := fun cl ↦ { cl with connected := ok }) (fun _ ↦ rfl) id).le
    · cases hstep
  | resumeAttempt a =>
    simp only [step, Option.bind_eq_bind, Option.bind_eq_some_iff] at hstep
    obtain ⟨attempt, -, hstep⟩ := hstep
    split at hstep
    · exact .of_continueAttempt (by rintro _ ⟨⟩) hstep
    · cases hstep
      rw [failAttempt]
      split
      · exact .of_eq (by rintro _ ⟨⟩) rfl rfl
      · obtain ⟨hcalls, hclients⟩ := scheduleReconnect_frame
          (p.setAttempt a { attempt with stage := .failed, settled := none })
        exact .of_eq (by rintro _ ⟨⟩) hcalls hclients
    · cases hstep
  | notify note =>
    cases hstep
    refine .same rfl (by rintro _ ⟨⟩) fun id ↦ ?_
    change ((p.clients.map _).map _).sum ≤ (p.clients.map _).sum
    rw [List.map_map]
    refine (congrArg List.sum (List.map_congr_left fun cl _ ↦ ?_)).le
    rw [Function.comp_apply]
    split <;> rfl
  | deliver c =>
    simp only [step, Option.bind_eq_bind, Option.bind_eq_some_iff] at hstep
    obtain ⟨cl, -, -, -, hstep⟩ := hstep
    cases hstep
    exact .same rfl (by rintro _ ⟨⟩) fun id ↦ (queued_updateClient
      (f := fun cl ↦ { cl with inbox := cl.inbox.tail }) (fun _ ↦ rfl) id).le
  | destroy =>
    cases hstep
    exact .same rfl (by rintro _ ⟨⟩) fun id ↦ (queued_updateClient (p := p) (c := p.listenClient)
      (f := fun cl ↦ { cl with ended := true }) (fun _ ↦ rfl) id).le

/-- Only `subscribeToRoomChannel` and `unsubscribeFromRoomChannel` make calls. -/
theorem kinds_of_step {d : PgEvent} (hstep : p.step d = some p')
    (hd : ∀ R, d ≠ .subscribe R ∧ d ≠ .unsubscribe R) :
    p'.calls.map Call.kind = p.calls.map Call.kind := by
  have hsettle : ∀ (q : PostgresService) (issuer : Issuer) (ok : Bool),
      (q.settle issuer ok).calls.map Call.kind = q.calls.map Call.kind := by
    intro q issuer ok
    cases issuer with
    | call id =>
      refine List.ext_getElem? fun i ↦ ?_
      rw [settle, List.getElem?_map, List.getElem?_map, List.getElem?_modify]
      split
      · cases q.calls[i]? <;> rfl
      · cases q.calls[i]? <;> rfl
    | attempt a => rfl
  have hvisit : ∀ (a : ℕ) (attempt : Attempt) (c i : ℕ),
      (p.visitRooms a attempt c i).calls = p.calls := fun a attempt c i ↦ by
    rw [visitRooms]
    split <;> rfl
  cases d with
  | subscribe R => exact absurd rfl (hd R).1
  | unsubscribe R => exact absurd rfl (hd R).2
  | execCommand c ok =>
    simp only [step, Option.bind_eq_bind, Option.bind_eq_some_iff] at hstep
    obtain ⟨cl, -, -, -, hstep⟩ := hstep
    split at hstep
    · cases hstep
    · cases hstep
      exact hsettle _ _ _
  | resumeCall id =>
    simp only [step, Option.bind_eq_bind, Option.bind_eq_some_iff] at hstep
    obtain ⟨call, hget, hstep⟩ := hstep
    split at hstep
    · cases hstep
      exact Lists.map_set_eq hget rfl
    · cases hstep
      have hrollback : (p.rollback call.kind).calls = p.calls := by
        cases call.kind <;> rfl
      rw [setCall, hrollback]
      exact Lists.map_set_eq hget rfl
    · cases hstep
    · cases hstep
  | clientError c =>
    simp only [step, Option.bind_eq_bind, Option.bind_eq_some_iff] at hstep
    obtain ⟨cl, -, -, -, hstep⟩ := hstep
    cases hstep
    rw [(scheduleReconnect_frame _).1]
    rfl
  | reconnectTimerFires =>
    simp only [step, Option.ite_none_right_eq_some, Option.some.injEq] at hstep
    obtain ⟨-, rfl⟩ := hstep
    rw [doReconnect]
    split <;> rfl
  | endSettles a =>
    simp only [step, Option.bind_eq_bind, Option.bind_eq_some_iff] at hstep
    obtain ⟨attempt, -, -, -, hstep⟩ := hstep
    cases hstep
    rfl
  | connectSettles a ok =>
    simp only [step, Option.bind_eq_bind, Option.bind_eq_some_iff] at hstep
    obtain ⟨attempt, -, hstep⟩ := hstep
    split at hstep
    · cases hstep
      rfl
    · cases hstep
  | resumeAttempt a =>
    simp only [step, Option.bind_eq_bind, Option.bind_eq_some_iff] at hstep
    obtain ⟨attempt, -, hstep⟩ := hstep
    split at hstep
    · rw [continueAttempt.eq_def] at hstep
      split at hstep
      · cases hstep
        rfl
      · cases hstep
        rfl
      · cases hstep
        rw [hvisit]
      · cases hstep
        rw [hvisit]
      · cases hstep
      · cases hstep
      · cases hstep
    · cases hstep
      rw [failAttempt]
      split
      · rfl
      · rw [(scheduleReconnect_frame _).1]
        rfl
    · cases hstep
  | notify note =>
    cases hstep
    rfl
  | deliver c =>
    simp only [step, Option.bind_eq_bind, Option.bind_eq_some_iff] at hstep
    obtain ⟨cl, -, -, -, hstep⟩ := hstep
    cases hstep
    rfl
  | destroy =>
    cases hstep
    rfl

/-- **Step lemma.** -/
theorem Outstanding.step (h : p.Outstanding) {e : PgEvent} (hstep : p.step e = some p') :
    p'.Outstanding := by
  intro id
  cases callsMove_of_step hstep with
  | same calls event queued =>
    rw [calls]
    exact (queued id).trans (h id)
  | made kind status calls event queued =>
    refine (queued id).trans ?_
    have hold := h id
    rw [calls]
    rcases Nat.lt_trichotomy id p.calls.length with hlt | rfl | hgt
    · rw [List.getElem?_append_left hlt, if_neg fun hnew ↦ hlt.ne hnew.2]
      exact hold
    · rw [List.getElem?_concat_length, Option.map_some]
      rw [List.getElem?_eq_none le_rfl, Option.map_none, if_neg (by rintro ⟨⟩)] at hold
      simpa using hold
    · rw [List.getElem?_eq_none hgt.le, Option.map_none, if_neg (by rintro ⟨⟩)] at hold
      rw [if_neg fun hnew ↦ hgt.ne' hnew.2]
      exact hold.trans (Nat.zero_le _)
  | settled c id' ok event calls queued =>
    have hold := h id
    have hnew := queued id
    rw [calls, List.getElem?_modify]
    by_cases hid : id = id'
    · subst hid
      rw [if_pos rfl] at hnew
      split at hold <;> omega
    · rw [if_neg hid] at hnew
      simp only [Ne.symm hid, if_false, Option.map_eq_map, Option.map_id']
      omega
  | returned id' call ok event get status calls queued =>
    refine (queued id).trans ((h id).trans ?_)
    rw [calls]
    by_cases hid : id' = id
    · subst hid
      rw [get, Option.map_some, status, if_neg (by rintro ⟨⟩)]
      exact Nat.zero_le _
    · rw [List.getElem?_set_ne hid]

/-- How the status of a call changes in a step: a call waits for its command, then returns. -/
inductive StatusMoves (e : PgEvent) (id : ℕ) : CallStatus → CallStatus → Prop
  | stays (status : CallStatus) (event : e ≠ .resumeCall id) : StatusMoves e id status status
  | settles (c : ℕ) (ok : Bool) (event : e = .execCommand c ok) :
    StatusMoves e id .waiting (.settled ok)
  | returns (ok : Bool) (event : e = .resumeCall id) :
    StatusMoves e id (.settled ok) (.returned ok)

theorem call_of_step (h : p.Outstanding) {e : PgEvent} {call : Call}
    (hget : p.calls[id]? = some call)
    (hstep : p.step e = some p') :
    ∃ status, p'.calls[id]? = some { call with status := status } ∧
      StatusMoves e id call.status status := by
  cases callsMove_of_step hstep with
  | same calls event queued => exact ⟨call.status, by rw [calls, hget], .stays _ (event id)⟩
  | made kind status calls event queued =>
    refine ⟨call.status, ?_, .stays _ (event id)⟩
    rw [calls]
    exact Lists.getElem?_concat_eq_some.mpr (Or.inl hget)
  | settled c id' ok event calls queued =>
    rw [calls, List.getElem?_modify, hget]
    by_cases hid : id' = id
    · subst hid
      have hwaiting : call.status = .waiting := by
        have hone := (Nat.le.intro ((Nat.add_comm _ _).trans (queued id'))).trans (h id')
        rw [if_pos rfl, hget, Option.map_some] at hone
        by_contra hnot
        rw [if_neg fun heq ↦ hnot (Option.some.inj heq)] at hone
        omega
      refine ⟨.settled ok, by simp, ?_⟩
      rw [hwaiting]
      exact .settles c ok event
    · exact ⟨call.status, by simp [hid], .stays _ (event ▸ by rintro ⟨⟩)⟩
  | returned id' call' ok event get status calls queued =>
    rw [calls]
    by_cases hid : id' = id
    · subst hid
      obtain rfl := Option.some.inj (hget.symm.trans get)
      refine ⟨.returned ok, List.getElem?_set_self (List.getElem?_eq_some_iff.mp hget).1, ?_⟩
      rw [status]
      exact .returns ok event
    · refine ⟨call.status, by rw [List.getElem?_set_ne hid, hget], .stays _ ?_⟩
      rw [event]
      exact fun heq ↦ hid (PgEvent.resumeCall.inj heq)

/-! ## Counts -/

/-- No count of zero is kept. -/
def Positive (p : PostgresService) : Prop := ∀ R, p.roomSubscriptionCounts.get R ≠ some 0

theorem Positive.get_eq_none (h : p.Positive) {R : RoomId} (hzero : p.roomCount R = 0) :
    p.roomSubscriptionCounts.get R = none := by
  cases hget : p.roomSubscriptionCounts.get R with
  | none => rfl
  | some n =>
    rw [roomCount, hget, Option.getD_some] at hzero
    exact absurd (hzero ▸ hget) (h R)

theorem Positive.of_set (h : p.Positive) {R : RoomId} {n : ℕ} (hn : n ≠ 0)
    (hcounts : p'.roomSubscriptionCounts = p.roomSubscriptionCounts.set R n) : p'.Positive := by
  intro R'
  rw [hcounts, EsMap.get_set]
  split
  · exact fun heq ↦ hn (Option.some.inj heq)
  · exact h R'

theorem Positive.of_delete (h : p.Positive) {R : RoomId}
    (hcounts : p'.roomSubscriptionCounts = p.roomSubscriptionCounts.delete R) : p'.Positive := by
  intro R'
  rw [hcounts, EsMap.get_delete]
  split
  · rintro ⟨⟩
  · exact h R'

/-- What the `catch` of a call does. -/
theorem counts_of_rollback {call : Call} (hget : p.calls[id]? = some call)
    (hstatus : call.status = .settled false) (hstep : p.step (.resumeCall id) = some p') :
    p'.roomSubscriptionCounts = (p.rollback call.kind).roomSubscriptionCounts := by
  simp only [PostgresService.step, Option.bind_eq_bind, hget, Option.bind_some, hstatus] at hstep
  cases hstep
  rfl

/-- **Step lemma.** -/
theorem Positive.step (h : p.Positive) {e : PgEvent} (hstep : p.step e = some p') :
    p'.Positive := by
  by_cases hrolls : p.RollsBack e
  · cases e with
    | resumeCall id =>
      obtain ⟨call, hget, hstatus⟩ := Option.map_eq_some_iff.mp hrolls
      have hcounts := counts_of_rollback hget hstatus hstep
      cases hkind : call.kind with
      | subscribe R => exact h.of_delete (by rw [hcounts, hkind]; rfl)
      | unsubscribe R => exact h.of_set one_ne_zero (by rw [hcounts, hkind]; rfl)
    | _ => exact hrolls.elim
  · cases e with
    | subscribe R =>
      cases hstep
      rw [subscribeToRoomChannel]
      split <;> exact h.of_set (Nat.succ_ne_zero _) rfl
    | unsubscribe R =>
      cases hstep
      rw [unsubscribeFromRoomChannel]
      split
      · exact h
      · split
        · rename_i hpos
          exact h.of_set hpos.ne' rfl
        · exact h.of_delete rfl
    | _ =>
      obtain ⟨hcounts, -⟩ :=
        counts_of_step (fun R ↦ ⟨by rintro ⟨⟩, by rintro ⟨⟩⟩) hrolls hstep
      intro R
      rw [hcounts]
      exact h R

theorem positive_ready (nodeId : JsString) : Positive (ready nodeId) := fun R ↦ by
  rw [show (ready nodeId).roomSubscriptionCounts.get R = none from rfl]
  rintro ⟨⟩

end PostgresService

end PostgresChat
