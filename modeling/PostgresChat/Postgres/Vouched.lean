import PostgresChat.Postgres.OnlyListens
import PostgresChat.Postgres.Rollback

/-!
# Where the room ids of commands come from

A room id becomes part of a command in three places: in `subscribeToRoomChannel`, which is called
with it, in `unsubscribeFromRoomChannel`, which issues a command only for a room it finds counted,
and in `ensureListenChannels`, which goes over the rooms that are counted. A count is made by a
subscription, or brought back by the rollback of an unsubscription that found it. So whatever holds
of every room id that is subscribed to holds of every room id in a command, in any order of calls
and failures.
-/

namespace PostgresChat

namespace PostgresService

variable {P Q : RoomId → Prop} {p p' : PostgresService}

/-- A channel of the node, or that of a room of `P`. -/
def VouchedChannel (P : RoomId → Prop) (channel : Channel) : Prop :=
  channel = presenceChannel ∨ channel = typingChannel ∨
    ∃ R, P R ∧ channel = getRoomNotifyChannel R

/-- The call number `id` is one for a room of `P`. -/
def VouchedCall (P : RoomId → Prop) (p : PostgresService) (id : ℕ) : Prop :=
  ∃ kind, (p.calls.map Call.kind)[id]? = some kind ∧ P kind.roomId

/-- The rooms of `P` vouch for the counts, for the commands that wait, and for the calls whose
command has settled. -/
structure Vouched (P : RoomId → Prop) (p : PostgresService) : Prop where
  counted : ∀ R ∈ p.roomSubscriptionCounts.keys, P R
  channels : ∀ cl ∈ p.clients, ∀ cmd ∈ cl.queue, VouchedChannel P cmd.channel
  issuers : ∀ cl ∈ p.clients, ∀ cmd ∈ cl.queue, ∀ id, cmd.issuer = .call id → VouchedCall P p id
  settled : ∀ call ∈ p.calls, ∀ ok, call.status = .settled ok → P call.kind.roomId

theorem vouched_ready (nodeId : JsString) : Vouched P (ready nodeId) := by
  refine ⟨fun R hR ↦ ?_, ?_, ?_, ?_⟩
  · rw [EsMap.mem_keys_iff] at hR
    cases hR
  all_goals simp [ready]

theorem VouchedChannel.mono (hPQ : ∀ R, P R → Q R) {channel : Channel}
    (h : VouchedChannel P channel) : VouchedChannel Q channel := by
  rcases h with h | h | ⟨R, hR, h⟩
  · exact Or.inl h
  · exact Or.inr (Or.inl h)
  · exact Or.inr (Or.inr ⟨R, hPQ R hR, h⟩)

theorem Vouched.mono (hPQ : ∀ R, P R → Q R) (h : Vouched P p) : Vouched Q p where
  counted R hR := hPQ R (h.counted R hR)
  channels cl hcl cmd hcmd := (h.channels cl hcl cmd hcmd).mono hPQ
  issuers cl hcl cmd hcmd id hid :=
    (h.issuers cl hcl cmd hcmd id hid).imp fun _ hkind ↦ ⟨hkind.1, hPQ _ hkind.2⟩
  settled call hcall ok hok := hPQ _ (h.settled call hcall ok hok)

/-! ## What a step may do -/

/-- Counts and calls are the same, and no command is new. -/
theorem Vouched.of_clients (h : Vouched P p)
    (hcounts : p'.roomSubscriptionCounts = p.roomSubscriptionCounts) (hcalls : p'.calls = p.calls)
    (hclients : ∀ cl' ∈ p'.clients, ∀ cmd ∈ cl'.queue, ∃ cl ∈ p.clients, cmd ∈ cl.queue) :
    Vouched P p' := by
  refine ⟨hcounts ▸ h.counted, fun cl' hcl' cmd hcmd ↦ ?_, fun cl' hcl' cmd hcmd id hid ↦ ?_,
    hcalls ▸ h.settled⟩
  · obtain ⟨cl, hcl, hmem⟩ := hclients cl' hcl' cmd hcmd
    exact h.channels cl hcl cmd hmem
  · obtain ⟨cl, hcl, hmem⟩ := hclients cl' hcl' cmd hcmd
    rw [VouchedCall, hcalls]
    exact h.issuers cl hcl cmd hmem id hid

/-- Neither is anything that is vouched for. -/
theorem Vouched.of_eq (h : Vouched P p)
    (hcounts : p'.roomSubscriptionCounts = p.roomSubscriptionCounts) (hcalls : p'.calls = p.calls)
    (hclients : p'.clients = p.clients) : Vouched P p' :=
  h.of_clients hcounts hcalls fun cl' hcl' _ hcmd ↦ ⟨cl', hclients ▸ hcl', hcmd⟩

theorem mem_updateClient {c : ℕ} {f : Client → Client} {cl' : Client}
    (h : cl' ∈ (p.updateClient c f).clients) :
    cl' ∈ p.clients ∨ ∃ cl, p.clients[c]? = some cl ∧ cl' = f cl := by
  obtain ⟨i, hi⟩ := List.mem_iff_getElem?.mp h
  rw [getElem?_updateClient] at hi
  split at hi
  · rename_i hc
    obtain ⟨cl, hget, rfl⟩ := Option.map_eq_some_iff.mp hi
    exact Or.inr ⟨cl, hc ▸ hget, rfl⟩
  · exact Or.inl (List.mem_of_getElem? hi)

/-- A client changes, and gets no new command. -/
theorem Vouched.updateClient (h : Vouched P p) (c : ℕ) {f : Client → Client}
    (hf : ∀ cl, p.clients[c]? = some cl → ∀ cmd ∈ (f cl).queue, cmd ∈ cl.queue) :
    Vouched P (p.updateClient c f) := by
  refine h.of_clients rfl rfl fun cl' hcl' cmd hcmd ↦ ?_
  rcases mem_updateClient hcl' with hmem | ⟨cl, hget, rfl⟩
  · exact ⟨cl', hmem, hcmd⟩
  · exact ⟨cl, List.mem_of_getElem? hget, hf cl hget cmd hcmd⟩

/-- The same, beside which nothing that is vouched for changes. -/
theorem Vouched.updateClients (h : Vouched P p) {c : ℕ} {f : Client → Client}
    (hcounts : p'.roomSubscriptionCounts = p.roomSubscriptionCounts) (hcalls : p'.calls = p.calls)
    (hclients : p'.clients = (p.updateClient c f).clients)
    (hf : ∀ cl, p.clients[c]? = some cl → ∀ cmd ∈ (f cl).queue, cmd ∈ cl.queue) : Vouched P p' :=
  (h.updateClient c hf).of_eq hcounts hcalls hclients

/-- A command is issued. -/
theorem Vouched.clientQuery (h : Vouched P p) (c : ℕ) {cmd : Command}
    (hchannel : VouchedChannel P cmd.channel)
    (hissuer : ∀ id, cmd.issuer = .call id → VouchedCall P p id) :
    Vouched P (p.clientQuery c cmd) := by
  have hcases : ∀ cl' ∈ (p.clientQuery c cmd).clients, ∀ cmd' ∈ cl'.queue,
      (∃ cl ∈ p.clients, cmd' ∈ cl.queue) ∨ cmd' = cmd := by
    intro cl' hcl' cmd' hcmd'
    rcases mem_updateClient hcl' with hmem | ⟨cl, hget, rfl⟩
    · exact Or.inl ⟨cl', hmem, hcmd'⟩
    · rcases List.mem_append.mp hcmd' with hold | hnew
      · exact Or.inl ⟨cl, List.mem_of_getElem? hget, hold⟩
      · exact Or.inr (List.mem_singleton.mp hnew)
  refine ⟨h.counted, fun cl' hcl' cmd' hcmd' ↦ ?_, fun cl' hcl' cmd' hcmd' id hid ↦ ?_, h.settled⟩
  · rcases hcases cl' hcl' cmd' hcmd' with ⟨cl, hcl, hmem⟩ | rfl
    · exact h.channels cl hcl cmd' hmem
    · exact hchannel
  · rcases hcases cl' hcl' cmd' hcmd' with ⟨cl, hcl, hmem⟩ | rfl
    · exact h.issuers cl hcl cmd' hmem id hid
    · exact hissuer id hid

theorem VouchedCall.addCall {id : ℕ} (h : VouchedCall P p id) (kind : CallKind)
    (status : CallStatus) : VouchedCall P (p.addCall kind status) id := by
  obtain ⟨kind', hget, hP⟩ := h
  refine ⟨kind', ?_, hP⟩
  change ((p.calls ++ [_]).map Call.kind)[id]? = _
  rw [List.map_append, List.getElem?_append_left (List.getElem?_eq_some_iff.mp hget).1, hget]

theorem vouchedCall_length {kind : CallKind} (hP : P kind.roomId) (status : CallStatus) :
    VouchedCall P (p.addCall kind status) p.calls.length := by
  refine ⟨kind, ?_, hP⟩
  change ((p.calls ++ [_]).map Call.kind)[_]? = _
  rw [List.map_append, List.getElem?_append_right (by rw [List.length_map]), List.length_map,
    Nat.sub_self]
  rfl

/-- A call starts. -/
theorem Vouched.addCall (h : Vouched P p) (kind : CallKind) (status : CallStatus)
    (hstatus : ∀ ok, status ≠ .settled ok) : Vouched P (p.addCall kind status) := by
  refine ⟨h.counted, h.channels, fun cl hcl cmd hcmd id hid ↦
    (h.issuers cl hcl cmd hcmd id hid).addCall kind status, fun call hcall ok hok ↦ ?_⟩
  rcases List.mem_append.mp hcall with hold | hnew
  · exact h.settled call hold ok hok
  · obtain rfl := List.mem_singleton.mp hnew
    exact absurd hok (hstatus ok)

/-- A count is stored. -/
theorem Vouched.setRoomCount (h : Vouched P p) {R : RoomId} (hR : P R) (n : ℕ) :
    Vouched P (p.setRoomCount R n) := by
  refine ⟨fun R' hR' ↦ ?_, h.channels, h.issuers, h.settled⟩
  rw [EsMap.mem_keys_iff] at hR'
  change ((p.roomSubscriptionCounts.set R n).get R').isSome at hR'
  by_cases hRR' : R' = R
  · exact hRR' ▸ hR
  · rw [EsMap.get_set_of_ne hRR'] at hR'
    exact h.counted R' (EsMap.mem_keys_iff.mpr hR')

/-- A count is deleted. -/
theorem Vouched.deleteRoomCount (h : Vouched P p) (R : RoomId) :
    Vouched P (p.deleteRoomCount R) := by
  refine ⟨fun R' hR' ↦ ?_, h.channels, h.issuers, h.settled⟩
  rw [EsMap.mem_keys_iff] at hR'
  change ((p.roomSubscriptionCounts.delete R).get R').isSome at hR'
  rw [EsMap.get_delete] at hR'
  split at hR'
  · cases hR'
  · exact h.counted R' (EsMap.mem_keys_iff.mpr hR')

/-- Calls change in their status only, and settle only when they are vouched for. -/
theorem Vouched.of_calls (h : Vouched P p)
    (hcounts : p'.roomSubscriptionCounts = p.roomSubscriptionCounts)
    (hclients : p'.clients = p.clients) (hkinds : p'.calls.map Call.kind = p.calls.map Call.kind)
    (hsettled : ∀ call ∈ p'.calls, ∀ ok, call.status = .settled ok → P call.kind.roomId) :
    Vouched P p' := by
  refine ⟨hcounts ▸ h.counted, hclients ▸ h.channels, ?_, hsettled⟩
  rw [hclients]
  intro cl hcl cmd hcmd id hid
  rw [VouchedCall, hkinds]
  exact h.issuers cl hcl cmd hcmd id hid

/-! ## Calls -/

/-- A room with a count is vouched for. -/
theorem Vouched.of_roomCount (h : Vouched P p) {R : RoomId} (hR : p.roomCount R ≠ 0) : P R := by
  refine h.counted R (EsMap.mem_keys_iff.mpr ?_)
  rw [roomCount] at hR
  cases hget : p.roomSubscriptionCounts.get R with
  | none =>
    rw [hget] at hR
    exact absurd rfl hR
  | some n => rfl

theorem Vouched.subscribe (h : Vouched P p) {R : RoomId} (hR : P R) :
    Vouched P (p.subscribeToRoomChannel R) := by
  have hcounted := h.setRoomCount hR (p.roomCount R + 1)
  rw [subscribeToRoomChannel]
  split
  · exact (hcounted.addCall (.subscribe R) .waiting (by rintro _ ⟨⟩)).clientQuery p.listenClient
      (Or.inr (Or.inr ⟨R, hR, rfl⟩)) fun id hid ↦ by
        obtain rfl := Issuer.call.inj hid
        exact vouchedCall_length hR _
  · exact hcounted.addCall _ _ (by rintro _ ⟨⟩)

/-- An unsubscription issues a command only for a room that is counted. -/
theorem Vouched.unsubscribe (h : Vouched P p) (R : RoomId) :
    Vouched P (p.unsubscribeFromRoomChannel R) := by
  rw [unsubscribeFromRoomChannel]
  split
  · exact h.addCall _ _ (by rintro _ ⟨⟩)
  · rename_i hcount
    have hR := h.of_roomCount hcount
    split
    · exact (h.setRoomCount hR _).addCall _ _ (by rintro _ ⟨⟩)
    · exact ((h.deleteRoomCount R).addCall (.unsubscribe R) .waiting (by rintro _ ⟨⟩)).clientQuery
        p.listenClient (Or.inr (Or.inr ⟨R, hR, rfl⟩)) fun id hid ↦ by
          obtain rfl := Issuer.call.inj hid
          exact vouchedCall_length hR _

/-! ## Steps -/

/-- The promise of a command settles. -/
theorem Vouched.settle (h : Vouched P p) {issuer : Issuer}
    (hissuer : ∀ id, issuer = .call id → VouchedCall P p id) (ok : Bool) :
    Vouched P (p.settle issuer ok) := by
  cases issuer with
  | attempt a => exact h.of_eq rfl rfl rfl
  | call id =>
    obtain ⟨kind, hkind, hP⟩ := hissuer id rfl
    rw [List.getElem?_map, Option.map_eq_some_iff] at hkind
    obtain ⟨call, hget, rfl⟩ := hkind
    have hcalls : (p.settle (.call id) ok).calls =
        p.calls.set id { call with status := .settled ok } :=
      Lists.modify_eq_set hget
    refine h.of_calls rfl rfl (by rw [hcalls]; exact kinds_set hget) fun call' hcall' ok' hok' ↦ ?_
    rw [hcalls] at hcall'
    rcases List.mem_or_eq_of_mem_set hcall' with hold | rfl
    · exact h.settled call' hold ok' hok'
    · exact hP

/-- A call returns. -/
theorem Vouched.returned (h : Vouched P p) {id : ℕ} {call : Call} (hget : p.calls[id]? = some call)
    (ok : Bool) : Vouched P (p.setCall id { call with status := .returned ok }) := by
  refine h.of_calls rfl rfl (kinds_set hget) fun call' hcall' ok' hok' ↦ ?_
  rcases List.mem_or_eq_of_mem_set hcall' with hold | rfl
  · exact h.settled call' hold ok' hok'
  · cases hok'

/-- The rollback brings back a count that was there when the call was made. -/
theorem Vouched.rollback (h : Vouched P p) {kind : CallKind} (hP : P kind.roomId) :
    Vouched P (p.rollback kind) := by
  cases kind with
  | subscribe R => exact h.deleteRoomCount R
  | unsubscribe R => exact h.setRoomCount hP 1

theorem Vouched.setAttempt (h : Vouched P p) (a : ℕ) (attempt : Attempt) :
    Vouched P (p.setAttempt a attempt) := h.of_eq rfl rfl rfl

theorem Vouched.scheduleReconnect (h : Vouched P p) : Vouched P p.scheduleReconnect := by
  rw [PostgresService.scheduleReconnect]
  split
  · exact h
  · exact h.of_eq rfl rfl rfl

/-- `ensureListenChannels` takes its rooms from the counts. -/
theorem Vouched.visitRooms (h : Vouched P p) (a : ℕ) (attempt : Attempt) (c i : ℕ) :
    Vouched P (p.visitRooms a attempt c i) := by
  rw [PostgresService.visitRooms]
  split
  · rename_i j R n hnext
    obtain ⟨-, hget, -⟩ := EsMap.next_eq_some hnext
    have hR : P R := h.counted R (EsMap.mem_keysOf.mpr ⟨n, List.mem_of_getElem? hget⟩)
    exact (h.clientQuery c (Or.inr (Or.inr ⟨R, hR, rfl⟩)) (by rintro _ ⟨⟩)).setAttempt _ _
  · exact h.of_eq rfl rfl rfl

theorem Vouched.continueAttempt (h : Vouched P p) {a : ℕ} {attempt : Attempt}
    (hstep : p.continueAttempt a attempt = some p') : Vouched P p' := by
  rw [PostgresService.continueAttempt.eq_def] at hstep
  split at hstep
  · cases hstep
    exact (h.clientQuery _ (Or.inl rfl) (by rintro _ ⟨⟩)).setAttempt _ _
  · cases hstep
    exact (h.clientQuery _ (Or.inr (Or.inl rfl)) (by rintro _ ⟨⟩)).setAttempt _ _
  · cases hstep
    exact h.visitRooms _ _ _ _
  · cases hstep
    exact h.visitRooms _ _ _ _
  all_goals cases hstep

/-- **Step lemma.** Nothing but a subscription needs to be vouched for. -/
theorem Vouched.step (h : Vouched P p) {e : PgEvent} (he : ∀ R, e = .subscribe R → P R)
    (hstep : p.step e = some p') : Vouched P p' := by
  cases e with
  | subscribe R =>
    cases hstep
    exact h.subscribe (he R rfl)
  | unsubscribe R =>
    cases hstep
    exact h.unsubscribe R
  | execCommand c ok =>
    simp only [PostgresService.step, Option.bind_eq_bind, Option.bind_eq_some_iff] at hstep
    obtain ⟨cl, hget, -, -, hstep⟩ := hstep
    split at hstep
    · cases hstep
    · rename_i cmd rest hqueue
      cases hstep
      have hcmd : cmd ∈ cl.queue := hqueue ▸ List.mem_cons_self
      refine Vouched.settle (h.updateClient c fun cl' hcl' cmd' hcmd' ↦ ?_) (fun id hid ↦
        h.issuers cl (List.mem_of_getElem? hget) cmd hcmd id hid) ok
      obtain rfl := Option.some.inj (hget.symm.trans hcl')
      exact hqueue ▸ List.mem_cons_of_mem _ hcmd'
  | resumeCall id =>
    simp only [PostgresService.step, Option.bind_eq_bind, Option.bind_eq_some_iff] at hstep
    obtain ⟨call, hget, hstep⟩ := hstep
    split at hstep
    · cases hstep
      exact h.returned hget true
    · rename_i hstatus
      cases hstep
      have hP := h.settled call (List.mem_of_getElem? hget) false hstatus
      refine (h.rollback hP).returned ?_ false
      cases hkind : call.kind <;> exact hget
    · cases hstep
    · cases hstep
  | clientError c =>
    simp only [PostgresService.step, Option.bind_eq_bind, Option.bind_eq_some_iff] at hstep
    obtain ⟨cl, -, -, -, hstep⟩ := hstep
    cases hstep
    exact Vouched.scheduleReconnect (h.updateClients rfl rfl rfl fun _ _ _ ↦ id)
  | reconnectTimerFires =>
    simp only [PostgresService.step, Option.ite_none_right_eq_some, Option.some.injEq] at hstep
    obtain ⟨-, rfl⟩ := hstep
    rw [doReconnect]
    split
    · exact h.of_eq rfl rfl rfl
    · exact h.updateClients rfl rfl rfl fun _ _ _ ↦ id
  | endSettles a =>
    simp only [PostgresService.step, Option.bind_eq_bind, Option.bind_eq_some_iff] at hstep
    obtain ⟨attempt, -, -, -, hstep⟩ := hstep
    cases hstep
    refine h.of_clients rfl rfl fun cl' hcl' cmd hcmd ↦ ?_
    rcases List.mem_append.mp hcl' with hold | hnew
    · exact ⟨cl', hold, hcmd⟩
    · obtain rfl := List.mem_singleton.mp hnew
      cases hcmd
  | connectSettles a ok =>
    simp only [PostgresService.step, Option.bind_eq_bind, Option.bind_eq_some_iff] at hstep
    obtain ⟨attempt, -, hstep⟩ := hstep
    split at hstep
    · cases hstep
      exact h.updateClients rfl rfl rfl fun _ _ _ ↦ id
    · cases hstep
  | resumeAttempt a =>
    simp only [PostgresService.step, Option.bind_eq_bind, Option.bind_eq_some_iff] at hstep
    obtain ⟨attempt, -, hstep⟩ := hstep
    split at hstep
    · exact h.continueAttempt hstep
    · cases hstep
      rw [failAttempt]
      split
      · exact h.setAttempt _ _
      · exact (h.setAttempt _ _).scheduleReconnect
    · cases hstep
  | notify note =>
    cases hstep
    refine h.of_clients rfl rfl fun cl' hcl' cmd hcmd ↦ ?_
    obtain ⟨cl, hcl, rfl⟩ := List.mem_map.mp hcl'
    refine ⟨cl, hcl, ?_⟩
    split at hcmd <;> exact hcmd
  | deliver c =>
    simp only [PostgresService.step, Option.bind_eq_bind, Option.bind_eq_some_iff] at hstep
    obtain ⟨cl, -, -, -, hstep⟩ := hstep
    cases hstep
    exact h.updateClient c fun _ _ _ ↦ id
  | destroy =>
    cases hstep
    exact h.updateClients rfl rfl rfl fun _ _ _ ↦ id

end PostgresService

end PostgresChat
