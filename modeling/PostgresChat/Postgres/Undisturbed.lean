import PostgresChat.Postgres.Agreement

/-!
# While nothing fails

From `ready` on, as long as no command fails, no client emits an error and nobody shuts the service
down, the first client stays the current one and the attempt that set it up stays finished. Then
`Agreement` gives the whole truth about the server: once no command is pending, it listens on a
room's channel exactly when the room is counted.
-/

namespace PostgresChat

open Execution

/-- The events there are while nothing fails. -/
def PgEvent.Calm : PgEvent → Prop
  | .subscribe _ | .unsubscribe _ | .resumeCall _ | .notify _ | .deliver _ => True
  | .execCommand _ ok => ok = true
  | .clientError _ | .reconnectTimerFires | .endSettles _ | .connectSettles .. | .resumeAttempt _
  | .destroy => False

instance : (e : PgEvent) → Decidable e.Calm
  | .subscribe _ | .unsubscribe _ | .resumeCall _ | .notify _ | .deliver _ => isTrue trivial
  | .execCommand _ ok => inferInstanceAs (Decidable (ok = true))
  | .clientError _ | .reconnectTimerFires | .endSettles _ | .connectSettles .. | .resumeAttempt _
  | .destroy => isFalse fun h ↦ h

theorem PgEvent.Calm.succeeds {e : PgEvent} (h : e.Calm) : e.Succeeds := by
  cases e with
  | execCommand c ok => exact h
  | _ => trivial

namespace PostgresService

theorem run_start_ready (nodeId : JsString) :
    run step (start nodeId) [.connectSettles 0 true, .resumeAttempt 0, .execCommand 0 true,
      .resumeAttempt 0, .execCommand 0 true, .resumeAttempt 0] = some (ready nodeId) := rfl

theorem agreement_ready (nodeId : JsString) : Agreement (ready nodeId) := by
  refine agreement_of_run (agreement_start nodeId) ?_ (run_start_ready nodeId)
  simp [PgEvent.Succeeds]

/-- The first client is current, and all counted rooms are covered on it. -/
structure Undisturbed (p : PostgresService) : Prop where
  agreement : Agreement p
  listenClient : p.listenClient = 0
  finished : ∃ attempt, p.attempts[0]? = some attempt ∧ attempt.stage = .finished 0

theorem undisturbed_ready (nodeId : JsString) : Undisturbed (ready nodeId) :=
  ⟨agreement_ready nodeId, rfl, _, rfl, rfl⟩

variable {p p' : PostgresService}

theorem finished_settle {issuer : Issuer} {ok : Bool}
    (h : ∃ attempt, p.attempts[0]? = some attempt ∧ attempt.stage = .finished 0) :
    ∃ attempt, (p.settle issuer ok).attempts[0]? = some attempt ∧ attempt.stage = .finished 0 := by
  obtain ⟨attempt, hget, hstage⟩ := h
  cases issuer with
  | call id => exact ⟨attempt, hget, hstage⟩
  | attempt a =>
    change ∃ attempt, (p.attempts.modify a _)[0]? = some attempt ∧ _
    rw [List.getElem?_modify, hget]
    refine ⟨_, rfl, ?_⟩
    split <;> exact hstage

/-- What a calm event other than a call does to the counts, the current client and the attempts:
nothing, but that the promise of an attempt may settle. -/
theorem frame_of_calm_step (hagree : Agreement p) {e : PgEvent} (he : e.Calm)
    (hcall : ∀ R, e ≠ .subscribe R ∧ e ≠ .unsubscribe R) (hstep : p.step e = some p') :
    p'.roomSubscriptionCounts = p.roomSubscriptionCounts ∧ p'.listenClient = p.listenClient ∧
      ((∃ attempt, p.attempts[0]? = some attempt ∧ attempt.stage = .finished 0) →
        ∃ attempt, p'.attempts[0]? = some attempt ∧ attempt.stage = .finished 0) := by
  cases e with
  | subscribe R => exact absurd rfl (hcall R).1
  | unsubscribe R => exact absurd rfl (hcall R).2
  | execCommand c ok =>
    simp only [step, Option.bind_eq_bind, Option.bind_eq_some_iff] at hstep
    obtain ⟨cl, -, -, -, hstep⟩ := hstep
    split at hstep
    · cases hstep
    · rename_i cmd rest hqueue
      cases hstep
      refine ⟨?_, ?_, fun h ↦ finished_settle h⟩
      · cases cmd.issuer <;> rfl
      · cases cmd.issuer <;> rfl
  | resumeCall id =>
    simp only [step, Option.bind_eq_bind, Option.bind_eq_some_iff] at hstep
    obtain ⟨call, hget, hstep⟩ := hstep
    split at hstep
    · cases hstep
      exact ⟨rfl, rfl, fun h ↦ h⟩
    · rename_i hstatus
      exact absurd hstatus (hagree.calls call (List.mem_of_getElem? hget))
    all_goals cases hstep
  | notify note =>
    cases hstep
    exact ⟨rfl, rfl, id⟩
  | deliver c =>
    simp only [step, Option.bind_eq_bind, Option.bind_eq_some_iff] at hstep
    obtain ⟨cl, -, -, -, hstep⟩ := hstep
    cases hstep
    exact ⟨rfl, rfl, id⟩
  | _ => exact he.elim

/-- **Step lemma.** -/
theorem Undisturbed.step (h : Undisturbed p) {e : PgEvent} (he : e.Calm)
    (hstep : p.step e = some p') : Undisturbed p' := by
  have hagree := h.agreement.step he.succeeds hstep
  cases e with
  | subscribe R =>
    cases hstep
    refine ⟨hagree, ?_, ?_⟩
    · rw [subscribeToRoomChannel]
      split <;> exact h.listenClient
    · rw [subscribeToRoomChannel]
      split <;> exact h.finished
  | unsubscribe R =>
    cases hstep
    refine ⟨hagree, ?_, ?_⟩
    · rw [unsubscribeFromRoomChannel]
      split
      · exact h.listenClient
      · split <;> exact h.listenClient
    · rw [unsubscribeFromRoomChannel]
      split
      · exact h.finished
      · split <;> exact h.finished
  | _ =>
    obtain ⟨-, hclient, hfinished⟩ :=
      frame_of_calm_step h.agreement he (fun R ↦ ⟨by rintro ⟨⟩, by rintro ⟨⟩⟩) hstep
    exact ⟨hagree, hclient.trans h.listenClient, hfinished h.finished⟩

theorem Agreement.counted_iff (h : Agreement p) {R : RoomId} :
    p.Counted R ↔ p.roomCount R ≠ 0 := by
  refine ⟨fun hcounted hzero ↦ ?_, counted_of_roomCount_ne_zero⟩
  rw [Counted, h.get_eq_none hzero] at hcounted
  cases hcounted

/-- The current connection listens on a channel. -/
def ListensOn (p : PostgresService) (channel : Channel) : Prop :=
  ∃ cl ∈ p.clients[p.listenClient]?, channel ∈ cl.listening

instance (p : PostgresService) (channel : Channel) : Decidable (p.ListensOn channel) :=
  inferInstanceAs (Decidable (∃ cl ∈ p.clients[p.listenClient]?, channel ∈ cl.listening))

/-- What the server listens on once no command is pending. -/
theorem Undisturbed.listensOn_iff (h : Undisturbed p) (hqueues : ∀ cl ∈ p.clients, cl.queue = [])
    {R : RoomId} : p.ListensOn (getRoomNotifyChannel R) ↔ p.roomCount R ≠ 0 := by
  obtain ⟨attempt, hattempt, hstage⟩ := h.finished
  obtain ⟨cl, hget⟩ : ∃ cl, p.clients[p.listenClient]? = some cl :=
    ⟨_, List.getElem?_eq_getElem h.agreement.bound⟩
  have hqueue := hqueues cl (List.mem_of_getElem? hget)
  rw [← h.agreement.counted_iff]
  constructor
  · rintro ⟨cl', hget', hmem⟩
    obtain rfl : cl = cl' := Option.some.inj (hget.symm.trans hget')
    exact h.agreement.listening_sound hget hqueue hmem
  · intro hcounted
    exact ⟨cl, hget, (h.agreement.listening_complete hget hqueue hattempt
      (h.listenClient ▸ hstage)).2.2 R hcounted⟩

/-! ## What only calls change -/

/-- The step is the rollback of a call whose command failed. -/
def RollsBack (p : PostgresService) : PgEvent → Prop
  | .resumeCall id => p.calls[id]?.map Call.status = some (.settled false)
  | _ => False

instance (p : PostgresService) : (e : PgEvent) → Decidable (p.RollsBack e)
  | .resumeCall _ => inferInstanceAs (Decidable (_ = _))
  | .subscribe _ | .unsubscribe _ | .execCommand .. | .clientError _ | .reconnectTimerFires
  | .endSettles _ | .connectSettles .. | .resumeAttempt _ | .notify _ | .deliver _ | .destroy =>
    isFalse fun h ↦ h

theorem nodeId_subscribe (p : PostgresService) (R : RoomId) :
    (p.subscribeToRoomChannel R).nodeId = p.nodeId := by
  rw [subscribeToRoomChannel]
  split <;> rfl

theorem nodeId_unsubscribe (p : PostgresService) (R : RoomId) :
    (p.unsubscribeFromRoomChannel R).nodeId = p.nodeId := by
  rw [unsubscribeFromRoomChannel]
  split
  · rfl
  · split <;> rfl

/-- Whatever else happens to the connection: counts are changed by calls and their rollbacks only.
-/
theorem counts_of_step {e : PgEvent} (hcall : ∀ R, e ≠ .subscribe R ∧ e ≠ .unsubscribe R)
    (hno : ¬ p.RollsBack e) (hstep : p.step e = some p') :
    p'.roomSubscriptionCounts = p.roomSubscriptionCounts ∧ p'.nodeId = p.nodeId := by
  have hschedule : ∀ p : PostgresService,
      p.scheduleReconnect.roomSubscriptionCounts = p.roomSubscriptionCounts ∧
        p.scheduleReconnect.nodeId = p.nodeId := by
    intro p
    rw [scheduleReconnect]
    split <;> exact ⟨rfl, rfl⟩
  cases e with
  | subscribe R => exact absurd rfl (hcall R).1
  | unsubscribe R => exact absurd rfl (hcall R).2
  | execCommand c ok =>
    simp only [step, Option.bind_eq_bind, Option.bind_eq_some_iff] at hstep
    obtain ⟨cl, -, -, -, hstep⟩ := hstep
    split at hstep
    · cases hstep
    · rename_i cmd rest hqueue
      cases hstep
      cases cmd.issuer <;> exact ⟨rfl, rfl⟩
  | resumeCall id =>
    simp only [step, Option.bind_eq_bind, Option.bind_eq_some_iff] at hstep
    obtain ⟨call, hget, hstep⟩ := hstep
    split at hstep
    · cases hstep
      exact ⟨rfl, rfl⟩
    · rename_i hstatus
      refine absurd ?_ hno
      rw [RollsBack, hget, Option.map_some, hstatus]
    · cases hstep
    · cases hstep
  | clientError c =>
    simp only [step, Option.bind_eq_bind, Option.bind_eq_some_iff] at hstep
    obtain ⟨cl, -, -, -, hstep⟩ := hstep
    cases hstep
    exact hschedule _
  | reconnectTimerFires =>
    simp only [step, Option.ite_none_right_eq_some, Option.some.injEq] at hstep
    obtain ⟨-, rfl⟩ := hstep
    rw [doReconnect]
    split <;> exact ⟨rfl, rfl⟩
  | endSettles a =>
    simp only [step, Option.bind_eq_bind, Option.bind_eq_some_iff] at hstep
    obtain ⟨attempt, -, -, -, hstep⟩ := hstep
    cases hstep
    exact ⟨rfl, rfl⟩
  | connectSettles a ok =>
    simp only [step, Option.bind_eq_bind, Option.bind_eq_some_iff] at hstep
    obtain ⟨attempt, -, hstep⟩ := hstep
    split at hstep
    · cases hstep
      exact ⟨rfl, rfl⟩
    · cases hstep
  | resumeAttempt a =>
    simp only [step, Option.bind_eq_bind, Option.bind_eq_some_iff] at hstep
    obtain ⟨attempt, -, hstep⟩ := hstep
    have hvisit : ∀ c i, (p.visitRooms a attempt c i).roomSubscriptionCounts =
        p.roomSubscriptionCounts ∧ (p.visitRooms a attempt c i).nodeId = p.nodeId := by
      intro c i
      rw [visitRooms]
      split <;> exact ⟨rfl, rfl⟩
    split at hstep
    · rw [continueAttempt] at hstep
      split at hstep <;> cases hstep
      · exact ⟨rfl, rfl⟩
      · exact ⟨rfl, rfl⟩
      · exact hvisit _ _
      · exact hvisit _ _
    · cases hstep
      rw [failAttempt]
      split
      · exact ⟨rfl, rfl⟩
      · exact hschedule _
    · cases hstep
  | notify note =>
    cases hstep
    exact ⟨rfl, rfl⟩
  | deliver c =>
    simp only [step, Option.bind_eq_bind, Option.bind_eq_some_iff] at hstep
    obtain ⟨cl, -, -, -, hstep⟩ := hstep
    cases hstep
    exact ⟨rfl, rfl⟩
  | destroy =>
    cases hstep
    exact ⟨rfl, rfl⟩

theorem nodeId_of_step {e : PgEvent} (hstep : p.step e = some p') : p'.nodeId = p.nodeId := by
  cases e with
  | subscribe R =>
    cases hstep
    exact nodeId_subscribe p R
  | unsubscribe R =>
    cases hstep
    exact nodeId_unsubscribe p R
  | resumeCall id =>
    simp only [step, Option.bind_eq_bind, Option.bind_eq_some_iff] at hstep
    obtain ⟨call, hget, hstep⟩ := hstep
    split at hstep <;> cases hstep
    · rfl
    · cases call.kind <;> rfl
  | _ => exact (counts_of_step (fun R ↦ ⟨by rintro ⟨⟩, by rintro ⟨⟩⟩) id hstep).2

end PostgresService

end PostgresChat
