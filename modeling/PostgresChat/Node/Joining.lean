import PostgresChat.Node.Coverage
import PostgresChat.Postgres.OnlyListens

/-!
# What a join relies on

A join subscribes first, and reads the history and answers after that: what is committed before the
history query is in the history, and what is committed after it is notified, provided the LISTEN has
taken effect by then. The join that issues the LISTEN waits for it. One that finds the room counted
does not, and the LISTEN it relies on may still be waiting on the other connection; `ListensFirst`
is the condition that it is not.

The runs here are those without leaves, closes, failures and reconnects (`Stays`). A room id is
taken as the client spells it, and the triggers notify on the channel of its canonical spelling, so
`ListensFirst` also asks that the room is joined under that one.
-/

namespace PostgresChat

open Execution PastTrace

/-! ## The stages of a join -/

/-- The room of a join that has subscribed. -/
def Stage.subscribed : Stage → Option RoomId
  | .joinHistory R _ | .joinPresence R => some R
  | _ => none

/-- The room of a join. -/
def Stage.joinRoom : Stage → Option RoomId
  | .joinMember R _ | .joinSubscribe R _ | .joinHistory R _ | .joinPresence R => some R
  | _ => none

/-- A join that has not sent its history. -/
def Stage.beforeHistory : Stage → Bool
  | .joinMember .. | .joinSubscribe .. | .joinHistory .. => true
  | _ => false

/-- The frames a join answers with when it has subscribed. -/
def ServerFrame.answersJoin : ServerFrame → Bool
  | .history .. | .joinedRoom _ => true
  | _ => false

/-- The room id is spelled as the database prints it. -/
def Canonical (R : RoomId) : Prop := (Uuid.parse R).map Uuid.text = some R

instance (R : RoomId) : Decidable (Canonical R) :=
  inferInstanceAs (Decidable ((Uuid.parse R).map Uuid.text = some R))

theorem Canonical.text_eq {R : RoomId} {r : Uuid} (h : Canonical R) (hr : Uuid.parse R = some r) :
    r.text = R := by
  rw [Canonical, hr] at h
  exact Option.some.inj h

theorem Stage.joining_of_subscribed {stage : Stage} {R : RoomId} (h : stage.subscribed = some R) :
    stage.joining = some R ∧ stage.joinRoom = some R := by
  cases stage with
  | joinHistory R' lastSeenSeq => exact ⟨h, h⟩
  | joinPresence R' => exact ⟨h, h⟩
  | _ => cases h

theorem subscribed_of_resume {stage : Stage} {settled : Settled} {R : RoomId}
    (h : (stage.resume settled).next.stage?.bind Stage.subscribed = some R) :
    stage.subscribed = some R ∨ ∃ lastSeenSeq, stage = .joinSubscribe R lastSeenSeq := by
  cases settled with
  | rejected => cases h
  | resolved result =>
    cases stage with
    | joinSubscribe R' lastSeenSeq => cases lastSeenSeq <;> cases h <;> exact Or.inr ⟨_, rfl⟩
    | joinHistory R' lastSeenSeq => exact Or.inl h
    | _ =>
      simp only [Stage.resume, Stage.proceed] at h
      try split at h
      all_goals cases h

theorem joinRoom_resume {stage stage' : Stage} {settled : Settled} {R : RoomId}
    (hR : stage.joinRoom = some R) (h : (stage.resume settled).next.stage? = some stage') :
    stage'.joinRoom = some R := by
  cases settled with
  | rejected => cases h
  | resolved result =>
    cases stage with
    | joinSubscribe R' lastSeenSeq => cases lastSeenSeq <;> cases h <;> exact hR
    | joinMember R' lastSeenSeq =>
      simp only [Stage.resume, Stage.proceed] at h
      split at h <;> cases h
      exact hR
    | joinHistory R' lastSeenSeq =>
      cases h
      exact hR
    | joinPresence R' => cases h
    | _ => cases hR

theorem subscribed_of_answersJoin {stage : Stage} {settled : Settled} {send : Send}
    (hsend : (stage.resume settled).send = some send) (hframe : send.frame.answersJoin = true) :
    ∃ R, stage.subscribed = some R := by
  cases settled with
  | rejected => cases hsend
  | resolved result =>
    cases stage with
    | joinHistory R lastSeenSeq => exact ⟨R, rfl⟩
    | joinPresence R => exact ⟨R, rfl⟩
    | joinSubscribe R lastSeenSeq => cases lastSeenSeq <;> cases hsend
    | _ =>
      simp only [Stage.resume, Stage.proceed] at hsend
      try split at hsend
      all_goals cases hsend
      all_goals cases hframe

namespace Node

variable {n n' : Node} {s : SocketId} {R : RoomId} {cl cl' : Client}

/-! ## The runs -/

/-- Nothing fails, nobody leaves, and no socket is cleaned up. -/
def Stays (n : Node) (e : Event) : Prop := e.Calm ∧ e.leaves = none ∧ n.cleansUp e = none

instance (n : Node) (e : Event) : Decidable (Stays n e) := inferInstanceAs (Decidable (_ ∧ _ ∧ _))

/-- A join that passes its check names its room canonically, and finds the channel of the room
listened on if it finds the room counted. -/
def ListensFirst (n : Node) (e : Event) : Prop :=
  ∀ R ∈ n.subscribes e, Canonical R ∧
    (n.pg.roomCount R ≠ 0 → n.pg.ListensOn (getRoomNotifyChannel R))

instance (n : Node) (e : Event) : Decidable (ListensFirst n e) :=
  inferInstanceAs (Decidable (∀ R ∈ n.subscribes e, _ ∧ _))

/-! ## What a join relies on -/

/-- The LISTEN of every join that has subscribed has been executed. -/
structure JoinInv (n : Node) (cl : Client) : Prop where
  pg : n.pg.Undisturbed
  listens : n.pg.OnlyListens cl
  leaving : ∀ key ∈ n.tasks.map Task.key, key.2.bind Stage.leaving = none
  canonical : ∀ key ∈ n.tasks.map Task.key, ∀ R, key.2.bind Stage.joining = some R → Canonical R
  /-- A join that subscribes awaits a call for its room. -/
  subscribing : ∀ task ∈ n.tasks, ∀ R lastSeenSeq promise,
    task.state = .awaiting (.joinSubscribe R lastSeenSeq) promise →
    ∃ id, promise = .call id ∧ (n.pg.calls.map Call.kind)[id]? = some (.subscribe R)
  subscribed : ∀ key ∈ n.tasks.map Task.key, ∀ R, key.2.bind Stage.subscribed = some R →
    getRoomNotifyChannel R ∈ cl.listening
  executed : ∀ R, getRoomNotifyChannel R ∈ cl.listening →
    .executed 0 .listen (getRoomNotifyChannel R) ∈ n.log

theorem joinInv_start (nodeId : JsString) :
    JoinInv (start nodeId)
      { connected := true, listening := {typingChannel, presenceChannel} } := by
  refine ⟨PostgresService.undisturbed_ready nodeId, PostgresService.onlyListens_ready nodeId,
    nofun, nofun, nofun, nofun, fun R hmem ↦ ?_⟩
  simp at hmem

/-- In a quiet step the channels become more by what is observed as executed. -/
theorem grows_of_quiet_step (h : n.pg.OnlyListens cl) (hpg : n.pg.Undisturbed) {e : Event}
    (he : e.Calm) (hq : e.quiet = true) (hstep : n.step e = some n') :
    ∃ cl', n'.pg.OnlyListens cl' ∧
      PostgresService.Grows (fun channel ↦ .executed 0 .listen channel ∈ n'.log)
        n.pg cl n'.pg cl' := by
  have hpasses : (∀ d, e ≠ .pg d) → ∃ cl', n'.pg.OnlyListens cl' ∧
      PostgresService.Grows (fun _ ↦ False) n.pg cl n'.pg cl' := by
    intro hne
    obtain ⟨ds, hrun, hds⟩ := (pg_cases_of_quiet_step hq hstep).resolve_left
      fun hown ↦ hown.elim fun d hd ↦ hne d hd.1
    refine (guarded_invariant (fun p ↦ p.Undisturbed ∧ ∃ cl', p.OnlyListens cl' ∧
      PostgresService.Grows (fun _ ↦ False) n.pg cl p cl') ?_
      ⟨hpg, cl, h, PostgresService.Grows.refl⟩ (guarded_of_forall _ hds _) hrun).2
    rintro p d p' ⟨hp, cl₁, hcl₁, hgrows⟩ hd hstep'
    have hcalm : d.Calm := by rcases hd with ⟨_, rfl⟩ | ⟨_, rfl⟩ <;> trivial
    have hcall : ∀ R, d ≠ .subscribe R ∧ d ≠ .unsubscribe R := by
      rcases hd with ⟨_, rfl⟩ | ⟨_, rfl⟩ <;> exact fun R ↦ ⟨by rintro ⟨⟩, by rintro ⟨⟩⟩
    obtain ⟨cl₂, hcl₂, hgrows'⟩ := hcl₁.step hp.agreement hcalm hcall hstep'
    refine ⟨hp.step hcalm hstep', cl₂, hcl₂, hgrows.trans ⟨hgrows'.calls, hgrows'.listening,
      fun channel hmem ↦ (hgrows'.added channel hmem).imp_right fun hexec ↦ ?_⟩⟩
    rcases hd with ⟨_, rfl⟩ | ⟨_, rfl⟩ <;> cases hexec.1
  cases e with
  | pg d =>
    simp only [step, Option.bind_eq_bind, Option.bind_eq_some_iff, Option.guard_eq_some'] at hstep
    obtain ⟨-, hinternal, pg, hpg', hstep⟩ := hstep
    cases hstep
    obtain ⟨cl', hcl', hgrows⟩ := h.step hpg.agreement he
      (fun R ↦ by constructor <;> rintro rfl <;> cases hinternal) hpg'
    refine ⟨cl', hcl', hgrows.calls, hgrows.listening, fun channel hmem ↦
      (hgrows.added channel hmem).imp_right ?_⟩
    rintro ⟨rfl, cmd, hcmd, hverb, rfl⟩
    refine List.mem_append_right _ ?_
    rw [PgEvent.observation, h.clients, List.getElem?_cons_zero, Option.bind_some, hcmd,
      Option.map_some, hverb]
    exact List.mem_singleton_self _
  | _ =>
    obtain ⟨cl', hcl', hgrows⟩ := hpasses (by rintro _ ⟨⟩)
    exact ⟨cl', hcl', hgrows.calls, hgrows.listening, fun channel hmem ↦
      (hgrows.added channel hmem).imp_right False.elim⟩

/-- Handlers stay where they are, and calls and channels become more. -/
theorem JoinInv.of_settles (h : JoinInv n cl) (hpg : n'.pg.Undisturbed)
    (hlistens : n'.pg.OnlyListens cl') (hgrows : PostgresService.Grows
      (fun channel ↦ .executed 0 .listen channel ∈ n'.log) n.pg cl n'.pg cl')
    (hsettles : Settles n n') (hlog : ∀ o ∈ n.log, o ∈ n'.log) : JoinInv n' cl' := by
  have hkeys := hsettles.handlers
  refine ⟨hpg, hlistens, hkeys ▸ h.leaving, hkeys ▸ h.canonical,
    fun task' htask' R lastSeenSeq promise hstate ↦ ?_,
    fun key hkey R hR ↦ hgrows.listening (h.subscribed key (hkeys ▸ hkey) R hR),
    fun R hmem ↦ ?_⟩
  · have hold : task' ∈ n.tasks := by
      rcases hsettles with htasks | ⟨k, task, stage, old, new, hget, hold, hpromise, htasks⟩
      · exact htasks ▸ htask'
      · rw [htasks] at htask'
        rcases List.mem_or_eq_of_mem_set htask' with hmem | rfl
        · exact hmem
        · cases hstate
          obtain ⟨id, rfl, -⟩ := h.subscribing task (List.mem_of_getElem? hget) R _ _ hold
          cases hpromise
    obtain ⟨id, hid, hkind⟩ := h.subscribing task' hold R lastSeenSeq promise hstate
    exact ⟨id, hid, hgrows.kind hkind⟩
  · exact (hgrows.added _ hmem).elim (fun hold ↦ hlog _ (h.executed R hold)) fun hnew ↦ hnew

/-- A frame other than a `leave_room`. -/
theorem JoinInv.receive (h : JoinInv n cl) {userId : UserId} (hu : userId ≠ [])
    {frame : ClientFrame}
    (hleaves : (Event.frame s frame).leaves = none) (hreceived : Received n n' s userId frame) :
    JoinInv n' cl := by
  obtain ⟨os, hlog, -⟩ := hreceived.log
  have hpg : n'.pg = n.pg := by
    rw [hreceived.pg]
    rcases updateRooms_cases frame with ⟨payload, rfl⟩ | ⟨payload, rfl⟩ | hother
    · rfl
    · cases hleaves
    · rw [(hother n _ s).1]
  have hnew : ∀ key ∈ n'.tasks.map Task.key, key ∈ n.tasks.map Task.key ∨
      key = Task.key ⟨s, userId, firstState userId frame⟩ := by
    intro key hkey
    rw [hreceived.tasks, List.map_append, List.mem_append] at hkey
    exact hkey.imp_right List.mem_singleton.mp
  have hjoining := joining_firstState s userId frame
  refine ⟨hpg ▸ h.pg, hpg ▸ h.listens, fun key hkey ↦ ?_, fun key hkey R hR ↦ ?_, ?_,
    fun key hkey R hR ↦ ?_, fun R hmem ↦ ?_⟩
  · rcases hnew key hkey with hkey | rfl
    · exact h.leaving key hkey
    · refine (leaving_firstState s hu frame).trans ?_
      cases frame with
      | leaveRoom payload => cases hleaves
      | _ => rfl
  · rcases hnew key hkey with hkey | rfl
    · exact h.canonical key hkey R hR
    · cases hjoining.symm.trans hR
  · intro task htask R lastSeenSeq promise hstate
    rw [hreceived.tasks, List.mem_append] at htask
    rcases htask with htask | htask
    · obtain ⟨id, hid, hkind⟩ := h.subscribing task htask R lastSeenSeq promise hstate
      exact ⟨id, hid, hpg ▸ hkind⟩
    · obtain rfl := List.mem_singleton.mp htask
      rw [stage?_eq hstate] at hjoining
      cases hjoining
  · rcases hnew key hkey with hkey | rfl
    · exact h.subscribed key hkey R hR
    · obtain ⟨stage, hstage, hR⟩ := Option.bind_eq_some_iff.mp hR
      cases hjoining.symm.trans (Option.bind_eq_some_iff.mpr
        ⟨stage, hstage, (Stage.joining_of_subscribed hR).1⟩)
  · rw [hlog, List.append_assoc]
    exact List.mem_append_left _ (h.executed R hmem)

/-- A call that a join awaits has come to its end only if the channel is listened on. -/
theorem JoinInv.listening_of_settled (h : JoinInv n cl) {task : Task}
    {lastSeenSeq : Option JsNumber}
    {promise : Promise} {settled : Settled} (htask : task ∈ n.tasks)
    (hstate : task.state = .awaiting (.joinSubscribe R lastSeenSeq) promise)
    (hsettled : n.settledOf promise = some settled) : getRoomNotifyChannel R ∈ cl.listening := by
  obtain ⟨id, rfl, hkind⟩ := h.subscribing task htask R lastSeenSeq promise hstate
  rw [List.getElem?_map, Option.map_eq_some_iff] at hkind
  obtain ⟨call, hget, hkind⟩ := hkind
  refine (h.listens.answered call (List.mem_of_getElem? hget) R hkind).resolve_left
    fun hwaiting ↦ ?_
  rw [settledOf, hget, Option.map_some, hwaiting] at hsettled
  cases hsettled

/-- A continuation. -/
theorem JoinInv.resume (h : JoinInv n cl) {k : ℕ} {task : Task} {stage : Stage}
    {settled : Settled} (hpg' : n'.pg.Undisturbed) (hfirst : ListensFirst n (.resume k))
    (hresumed : Resumed n n' k task stage settled) :
    ∃ cl', JoinInv n' cl' ∧ cl.listening ⊆ cl'.listening := by
  obtain ⟨hsame, -, hpg, os, hlog, -⟩ := observeCheck_frame n k stage settled
  obtain ⟨os', hlog', -⟩ := hresumed.turned.log
  obtain ⟨promise, hstate, hsettled⟩ := hresumed.awaiting
  have htask : task ∈ n.tasks := List.mem_of_getElem? hresumed.get
  have hexecuted : ∀ R, getRoomNotifyChannel R ∈ cl.listening →
      .executed 0 .listen (getRoomNotifyChannel R) ∈ n'.log := by
    intro R hmem
    rw [hlog', hlog, List.append_assoc]
    exact List.mem_append_left _ (h.executed R hmem)
  have hturn := hresumed.turned.pg
  have htasks := hresumed.turned.tasks
  rw [hpg] at hturn
  rw [hsame.tasks, hpg] at htasks
  have hkeys : ∀ key ∈ n'.tasks.map Task.key, key ∈ n.tasks.map Task.key ∨
      key.2 = (stage.resume settled).next.stage? := by
    intro key hkey
    rw [htasks, List.map_set] at hkey
    refine (List.mem_or_eq_of_mem_set hkey).imp_right ?_
    rintro rfl
    exact stage?_afterTurn _ _ _ _
  have hsubscribed : ∀ R, (stage.resume settled).next.stage?.bind Stage.subscribed = some R →
      getRoomNotifyChannel R ∈ cl.listening := by
    intro R hR
    rcases subscribed_of_resume hR with hR | ⟨lastSeenSeq, rfl⟩
    · exact h.subscribed task.key (List.mem_map_of_mem htask) R (by rw [key_eq hstate]; exact hR)
    · exact h.listening_of_settled htask hstate hsettled
  -- What is left to show in each case is about the handler that continues.
  have hmake : ∀ cl', n'.pg.OnlyListens cl' →
      PostgresService.Grows (fun _ ↦ False) n.pg cl n'.pg cl' →
      (stage.resume settled).next.stage?.bind Stage.leaving = none →
      (∀ R, (stage.resume settled).next.stage?.bind Stage.joining = some R → Canonical R) →
      (∀ R lastSeenSeq promise, (afterTurn n.pg task.userId (stage.resume settled).next).2 =
        .awaiting (.joinSubscribe R lastSeenSeq) promise →
        ∃ id, promise = .call id ∧ (n'.pg.calls.map Call.kind)[id]? = some (.subscribe R)) →
      JoinInv n' cl' ∧ cl.listening ⊆ cl'.listening := by
    intro cl' hlistens hgrows hleaving hcanonical hsubscribing
    refine ⟨?_, hgrows.listening⟩
    refine ⟨hpg', hlistens, fun key hkey ↦ ?_, fun key hkey R hR ↦ ?_, ?_, fun key hkey R hR ↦ ?_,
      fun R hmem ↦ hexecuted R ((hgrows.added _ hmem).resolve_right fun hfalse ↦ hfalse)⟩
    · rcases hkeys key hkey with hkey | hkey
      · exact h.leaving key hkey
      · rw [hkey, hleaving]
    · rcases hkeys key hkey with hkey | hkey
      · exact h.canonical key hkey R hR
      · exact hcanonical R (hkey ▸ hR)
    · intro task' htask' R lastSeenSeq promise' hstate'
      rw [htasks] at htask'
      rcases List.mem_or_eq_of_mem_set htask' with htask' | rfl
      · obtain ⟨id, hid, hkind⟩ := h.subscribing task' htask' R lastSeenSeq promise' hstate'
        exact ⟨id, hid, hgrows.kind hkind⟩
      · exact hsubscribing R lastSeenSeq promise' hstate'
    · rcases hkeys key hkey with hkey | hkey
      · exact hgrows.listening (h.subscribed key hkey R hR)
      · exact hgrows.listening (hsubscribed R (hkey ▸ hR))
  rcases resume_cases stage settled with
    ⟨R, lastSeenSeq, rfl, hnext⟩ | ⟨R, rfl, hnext⟩ | ⟨hordinary, -⟩
  · have hR := hfirst R (by rw [subscribes, upcoming_of_resumed hresumed, hnext]; rfl)
    rw [hnext] at hturn hmake
    obtain ⟨cl', hcl', hgrows⟩ := h.listens.subscribe (X := fun _ ↦ False)
      fun hcount ↦ h.listens.listensOn_iff.mp (hR.2 hcount)
    obtain ⟨status, hcalls⟩ := PostgresService.calls_subscribeToRoomChannel n.pg R
    rw [← show n'.pg = n.pg.subscribeToRoomChannel R from hturn] at hcl' hgrows hcalls
    refine ⟨cl', hmake cl' hcl' hgrows rfl ?_ ?_⟩
    · rintro _ ⟨⟩
      exact hR.1
    · rintro _ _ _ ⟨⟩
      refine ⟨_, rfl, ?_⟩
      rw [hcalls, List.map_append, List.getElem?_append_right (by rw [List.length_map]),
        List.length_map, Nat.sub_self]
      rfl
  · have hleaving := h.leaving task.key (List.mem_map_of_mem htask)
    rw [key_eq hstate] at hleaving
    cases hleaving
  · rw [hordinary.pg] at hturn
    refine ⟨cl, hmake cl (hturn ▸ h.listens) (hturn ▸ PostgresService.Grows.refl)
      hordinary.leaving (fun R hR ↦ ?_) fun R lastSeenSeq promise' hstate' ↦ ?_⟩
    · exact h.canonical task.key (List.mem_map_of_mem htask) R
        (by rw [key_eq hstate]; exact hordinary.joining R hR)
    · have hsubscribes := hordinary.subscribes
      cases hcase : (stage.resume settled).next with
      | await stage' =>
        rw [hcase] at hstate' hsubscribes
        cases hstate'
        cases hsubscribes
      | returned =>
        rw [hcase] at hstate'
        cases hstate'
      | threw =>
        rw [hcase] at hstate'
        cases hstate'

/-- **Step lemma.** -/
theorem JoinInv.step (h : JoinInv n cl) {e : Event} (hstays : Stays n e)
    (hfirst : ListensFirst n e) (hstep : n.step e = some n') :
    ∃ cl', JoinInv n' cl' ∧ cl.listening ⊆ cl'.listening := by
  have hpg' := undisturbed_step h.pg hstays.1 hstep
  cases stepped_of_step hstep with
  | connected =>
    exact ⟨cl, h.of_settles h.pg h.listens PostgresService.Grows.refl (Or.inl rfl) fun _ ho ↦ ho,
      Finset.Subset.refl _⟩
  | received s frame socket _ _ hreceived =>
    exact ⟨cl, h.receive socket.userId_ne_nil hstays.2.1 hreceived, Finset.Subset.refl _⟩
  | resumed k task stage settled _ hresumed => exact h.resume hpg' hfirst hresumed
  | marked _ s _ _ hmarked =>
    exact ⟨cl, h.of_settles hpg' (hmarked.pg ▸ h.listens)
      (hmarked.pg ▸ PostgresService.Grows.refl) hmarked.quiet.settles fun o ho ↦ hmarked.log ▸ ho,
      Finset.Subset.refl _⟩
  | cleaned _ s _ _ hcleansUp => cases hstays.2.2.symm.trans hcleansUp
  | quiet _ _ hq hquiet =>
    obtain ⟨cl', hcl', hgrows⟩ := grows_of_quiet_step h.listens h.pg hstays.1 hq hstep
    obtain ⟨os, hlog, -⟩ := hquiet.log
    exact ⟨cl', h.of_settles hpg' hcl' hgrows hquiet.settles fun o ho ↦
      hlog ▸ List.mem_append_left _ ho, hgrows.listening⟩

end Node

end PostgresChat
