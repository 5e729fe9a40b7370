import PostgresChat.Postgres.Listen

/-!
# Reference counts and the server

The keys of `roomSubscriptionCounts` and the channels the server listens on are changed by different
parties at different times: a call changes a count at once and queues its command, the server
executes the command later, and after a reconnect `ensureListenChannels` issues a LISTEN for every
key while calls keep changing the keys under its iterator.

## What is compared

Pending commands make the server's set lag behind, so the set to compare is `drained`: the channels
the connection will listen on when its queue has been executed. Executing a command does not change
it, and issuing one changes it at once, together with the count. Between the count and `drained` one
direction always holds: only counted rooms are listened on. The other direction is what the loop
establishes, and at every `await` of the loop it holds of the rooms whose keys are not ahead of the
iterator (`Covered`).
-/

namespace PostgresChat

open Execution

/-! ## The channels once the queue is executed -/

/-- The channels the connection listens on once its queue is executed. -/
def Client.drained (cl : Client) : Finset Channel :=
  cl.queue.foldl (fun listening cmd ↦ cmd.effect listening) cl.listening

/-- Issuing a command. -/
theorem Client.drained_concat (cl : Client) (cmd : Command) :
    { cl with queue := cl.queue ++ [cmd] }.drained = cmd.effect cl.drained := by
  rw [Client.drained, List.foldl_append]
  rfl

/-- Executing a command. -/
theorem Client.drained_exec {cl : Client} {cmd : Command} {rest : List Command}
    (h : cl.queue = cmd :: rest) :
    { cl with queue := rest, listening := cmd.effect cl.listening }.drained = cl.drained := by
  rw [Client.drained, Client.drained, h, List.foldl_cons]

/-- The command of the event, if it is one, succeeds. -/
def PgEvent.Succeeds : PgEvent → Prop
  | .execCommand _ ok => ok = true
  | _ => True

namespace PostgresService

/-- The channels the current client listens on once its queue is executed. -/
def drained (p : PostgresService) : Finset Channel :=
  (p.clients[p.listenClient]?.map Client.drained).getD ∅

/-- A room that has a stored count. -/
def Counted (p : PostgresService) (r : RoomId) : Prop := (p.roomSubscriptionCounts.get r).isSome

theorem drained_congr {p p' : PostgresService}
    (h : p'.clients[p'.listenClient]?.map Client.drained =
      p.clients[p.listenClient]?.map Client.drained) : p'.drained = p.drained := by
  rw [drained, drained, h]

theorem drained_updateClient {p : PostgresService} {c : ℕ} {f : Client → Client}
    (hf : ∀ cl, p.clients[c]? = some cl → (f cl).drained = cl.drained) :
    (p.updateClient c f).drained = p.drained := by
  refine drained_congr ?_
  change Option.map Client.drained (p.updateClient c f).clients[p.listenClient]? = _
  rw [getElem?_updateClient]
  split
  · rename_i hc
    subst hc
    cases hget : p.clients[p.listenClient]? with
    | none => rfl
    | some cl => exact congrArg some (hf cl hget)
  · rfl

theorem drained_clientQuery_of_ne {p : PostgresService} {c : ℕ} {cmd : Command}
    (hc : c ≠ p.listenClient) : (p.clientQuery c cmd).drained = p.drained := by
  refine drained_congr ?_
  change ((p.updateClient c _).clients[p.listenClient]?).map Client.drained = _
  rw [getElem?_updateClient, if_neg hc]

theorem drained_clientQuery {p : PostgresService} {cmd : Command}
    (hlt : p.listenClient < p.clients.length) :
    (p.clientQuery p.listenClient cmd).drained = cmd.effect p.drained := by
  rw [drained, drained]
  change (((p.updateClient p.listenClient _).clients[p.listenClient]?).map Client.drained).getD ∅
    = _
  rw [getElem?_updateClient, if_pos rfl, List.getElem?_eq_getElem hlt, Option.map_some,
    Option.map_some, Option.map_some, Option.getD_some, Option.getD_some, Client.drained_concat]

/-! ## What an attempt has covered -/

/-- At `point` of the loop on the current client, the commands issued so far cover the channels
passed, and every counted room whose key is not ahead of the iterator. -/
def Covered (p : PostgresService) : EnsurePoint → Prop
  | .presence => presenceChannel ∈ p.drained
  | .typing => presenceChannel ∈ p.drained ∧ typingChannel ∈ p.drained
  | .room i => presenceChannel ∈ p.drained ∧ typingChannel ∈ p.drained ∧
      ∀ r, p.Counted r →
        getRoomNotifyChannel r ∈ p.drained ∨ p.roomSubscriptionCounts.LiveFrom i r

/-- The channels of all counted rooms are covered. -/
def CoveredAll (p : PostgresService) : Prop :=
  presenceChannel ∈ p.drained ∧ typingChannel ∈ p.drained ∧
    ∀ r, p.Counted r → getRoomNotifyChannel r ∈ p.drained

/-- What holds of an attempt at each stage. An attempt may work on a client that has been replaced
since; nothing is asked of it then. -/
def StageOk (p : PostgresService) : AttemptStage → Prop
  | .ending | .failed => True
  | .connecting c => c < p.clients.length
  | .ensuring c point => c < p.clients.length ∧ (c = p.listenClient → p.Covered point)
  | .finished c => c < p.clients.length ∧ (c = p.listenClient → p.CoveredAll)

/-- The current client is kept, and what attempts have covered on it stays covered: a counted room
is covered by a command issued in the step, or was counted before and has been kept. -/
structure Keeps (p p' : PostgresService) : Prop where
  listenClient : p'.listenClient = p.listenClient
  length : p'.clients.length = p.clients.length
  presence : presenceChannel ∈ p.drained → presenceChannel ∈ p'.drained
  typing : typingChannel ∈ p.drained → typingChannel ∈ p'.drained
  room : ∀ r, p'.Counted r → getRoomNotifyChannel r ∈ p'.drained ∨
    p.Counted r ∧ (getRoomNotifyChannel r ∈ p.drained → getRoomNotifyChannel r ∈ p'.drained) ∧
      ∀ i, p.roomSubscriptionCounts.LiveFrom i r → p'.roomSubscriptionCounts.LiveFrom i r

theorem Keeps.covered {p p' : PostgresService} (h : Keeps p p') {point : EnsurePoint}
    (hcov : p.Covered point) : p'.Covered point := by
  cases point with
  | presence => exact h.presence hcov
  | typing => exact ⟨h.presence hcov.1, h.typing hcov.2⟩
  | room i =>
    refine ⟨h.presence hcov.1, h.typing hcov.2.1, fun r hr ↦ ?_⟩
    rcases h.room r hr with hnew | ⟨hold, hdrained, hlive⟩
    · exact Or.inl hnew
    · exact (hcov.2.2 r hold).imp hdrained (hlive i)

theorem Keeps.coveredAll {p p' : PostgresService} (h : Keeps p p') (hcov : p.CoveredAll) :
    p'.CoveredAll := by
  refine ⟨h.presence hcov.1, h.typing hcov.2.1, fun r hr ↦ ?_⟩
  rcases h.room r hr with hnew | ⟨hold, hdrained, -⟩
  · exact hnew
  · exact hdrained (hcov.2.2 r hold)

theorem Keeps.stageOk {p p' : PostgresService} (h : Keeps p p') {stage : AttemptStage}
    (hok : p.StageOk stage) : p'.StageOk stage := by
  cases stage with
  | ending => trivial
  | failed => trivial
  | connecting c => exact Nat.lt_of_lt_of_eq hok h.length.symm
  | ensuring c point =>
    exact ⟨Nat.lt_of_lt_of_eq hok.1 h.length.symm,
      fun hc ↦ h.covered (hok.2 (hc.trans h.listenClient))⟩
  | finished c =>
    exact ⟨Nat.lt_of_lt_of_eq hok.1 h.length.symm,
      fun hc ↦ h.coveredAll (hok.2 (hc.trans h.listenClient))⟩

/-- Same current client, counts and `drained`. -/
theorem Keeps.of_eq {p p' : PostgresService} (hclient : p'.listenClient = p.listenClient)
    (hlength : p'.clients.length = p.clients.length) (hdrained : p'.drained = p.drained)
    (hcounts : p'.roomSubscriptionCounts = p.roomSubscriptionCounts) : Keeps p p' where
  listenClient := hclient
  length := hlength
  presence h := hdrained.symm ▸ h
  typing h := hdrained.symm ▸ h
  room r hr := by
    rw [Counted, hcounts] at hr
    exact Or.inr ⟨hr, fun h ↦ hdrained.symm ▸ h, fun i h ↦ hcounts.symm ▸ h⟩

/-! ## The invariant -/

/-- The counts, the queue of the current client and every attempt agree. -/
structure Agreement (p : PostgresService) : Prop where
  bound : p.listenClient < p.clients.length
  /-- Every stored count is at least one. -/
  pos : ∀ r n, p.roomSubscriptionCounts.get r = some n → 1 ≤ n
  /-- Only counted rooms are listened on, besides the two global channels. -/
  sound : ∀ ch ∈ p.drained, ch = presenceChannel ∨ ch = typingChannel ∨
    ∃ r, p.Counted r ∧ ch = getRoomNotifyChannel r
  attempts : ∀ (a : ℕ) (attempt : Attempt), p.attempts[a]? = some attempt →
    p.StageOk attempt.stage
  /-- No command of a call has failed. -/
  calls : ∀ call ∈ p.calls, call.status ≠ .settled false

theorem agreement_start (nodeId : JsString) : Agreement (start nodeId) where
  bound := Nat.zero_lt_one
  pos r n h := by cases h
  sound ch h := by exact absurd h (Finset.notMem_empty ch)
  attempts a attempt h := by
    obtain ⟨rfl, rfl⟩ : a = 0 ∧ attempt = ⟨.connecting 0, none, true⟩ := by
      cases a with
      | zero => exact ⟨rfl, (Option.some.inj h).symm⟩
      | succ a => cases h
    exact Nat.zero_lt_one
  calls call h := by cases h

variable {p : PostgresService}

theorem counted_setRoomCount {R r : RoomId} {n : ℕ} :
    (p.setRoomCount R n).Counted r ↔ r = R ∨ p.Counted r := by
  change ((p.roomSubscriptionCounts.set R n).get r).isSome = true ↔ _
  rw [EsMap.get_set]
  split
  · rename_i hr
    exact ⟨fun _ ↦ Or.inl hr, fun _ ↦ rfl⟩
  · rename_i hr
    exact ⟨Or.inr, fun h ↦ h.resolve_left hr⟩

theorem counted_deleteRoomCount {R r : RoomId} :
    (p.deleteRoomCount R).Counted r ↔ r ≠ R ∧ p.Counted r := by
  change ((p.roomSubscriptionCounts.delete R).get r).isSome = true ↔ _
  rw [EsMap.get_delete]
  split
  · rename_i hr
    exact ⟨fun h ↦ absurd h Bool.false_ne_true, fun h ↦ absurd hr h.1⟩
  · rename_i hr
    exact ⟨fun h ↦ ⟨hr, h⟩, fun h ↦ h.2⟩

theorem counted_of_roomCount_ne_zero {r : RoomId} (h : p.roomCount r ≠ 0) : p.Counted r := by
  rw [roomCount] at h
  rw [Counted]
  cases hget : p.roomSubscriptionCounts.get r with
  | none => exact absurd (by rw [hget]; rfl) h
  | some n => rfl

theorem Agreement.get_eq_none (h : Agreement p) {r : RoomId} (hr : p.roomCount r = 0) :
    p.roomSubscriptionCounts.get r = none := by
  cases hget : p.roomSubscriptionCounts.get r with
  | none => rfl
  | some n =>
    have hpos := h.pos r n hget
    rw [roomCount, hget, Option.getD_some] at hr
    omega

/-- A step that keeps the current client, counts and `drained`, and whose attempts are old ones or
have reached a stage of which nothing is asked. -/
theorem Agreement.frame (h : Agreement p) {p' : PostgresService} (hkeeps : Keeps p p')
    (hdrained : p'.drained = p.drained)
    (hcounts : p'.roomSubscriptionCounts = p.roomSubscriptionCounts)
    (hattempts : ∀ (a : ℕ) (attempt : Attempt), p'.attempts[a]? = some attempt →
      p'.StageOk attempt.stage ∨
        ∃ old, p.attempts[a]? = some old ∧ old.stage = attempt.stage)
    (hcalls : ∀ call ∈ p'.calls, call.status ≠ .settled false) : Agreement p' where
  bound := by rw [hkeeps.listenClient, hkeeps.length]; exact h.bound
  pos r n hn := h.pos r n (hcounts ▸ hn)
  sound ch hch := by
    rw [hdrained] at hch
    simp only [Counted, hcounts]
    exact h.sound ch hch
  attempts a attempt hget := by
    rcases hattempts a attempt hget with hok | ⟨old, hold, hstage⟩
    · exact hok
    · exact hkeeps.stageOk (hstage ▸ h.attempts a old hold)
  calls := hcalls

/-! ## Calls -/

theorem Agreement.addCall (h : Agreement p) {kind : CallKind} {status : CallStatus}
    (hstatus : status ≠ .settled false) : Agreement (p.addCall kind status) := by
  refine h.frame (Keeps.of_eq rfl rfl rfl rfl) rfl rfl
    (fun _ attempt hget ↦ Or.inr ⟨attempt, hget, rfl⟩) fun call hcall ↦ ?_
  rcases List.mem_append.mp hcall with hcall | hcall
  · exact h.calls call hcall
  · rw [List.mem_singleton.mp hcall]
    exact hstatus

/-- The count of a counted room changes. -/
theorem Agreement.setRoomCount (h : Agreement p) {R : RoomId} {n : ℕ} (hR : p.Counted R)
    (hn : 1 ≤ n) : Agreement (p.setRoomCount R n) := by
  have hcounted : ∀ r, (p.setRoomCount R n).Counted r ↔ p.Counted r := fun r ↦
    counted_setRoomCount.trans ⟨fun hr ↦ hr.elim (· ▸ hR) id, Or.inr⟩
  have hkeeps : Keeps p (p.setRoomCount R n) :=
    ⟨rfl, rfl, id, id, fun r hr ↦ Or.inr ⟨(hcounted r).mp hr, id, fun _ ↦ EsMap.LiveFrom.set⟩⟩
  refine ⟨h.bound, fun r m hm ↦ ?_, fun ch hch ↦ ?_,
    fun a attempt hget ↦ hkeeps.stageOk (h.attempts a attempt hget), h.calls⟩
  · change (p.roomSubscriptionCounts.set R n).get r = some m at hm
    rw [EsMap.get_set] at hm
    split at hm
    · cases hm
      exact hn
    · exact h.pos r m hm
  · simp only [hcounted]
    exact h.sound ch hch

/-- A room is counted and its LISTEN issued. -/
theorem Agreement.listenRoom (h : Agreement p) (R : RoomId) {n : ℕ} (hn : 1 ≤ n)
    (issuer : Issuer) :
    Agreement ((p.setRoomCount R n).clientQuery p.listenClient
      ⟨.listen, getRoomNotifyChannel R, issuer⟩) := by
  have hdrained : ((p.setRoomCount R n).clientQuery p.listenClient
      ⟨.listen, getRoomNotifyChannel R, issuer⟩).drained =
      insert (getRoomNotifyChannel R) p.drained := drained_clientQuery h.bound
  have hkeeps : Keeps p ((p.setRoomCount R n).clientQuery p.listenClient
      ⟨.listen, getRoomNotifyChannel R, issuer⟩) := by
    refine ⟨rfl, length_updateClient _ _ _, ?_, ?_, fun r hr ↦ ?_⟩
    · rw [hdrained]
      exact Finset.mem_insert_of_mem
    · rw [hdrained]
      exact Finset.mem_insert_of_mem
    · rw [hdrained]
      rcases counted_setRoomCount.mp hr with rfl | hr
      · exact Or.inl (Finset.mem_insert_self _ _)
      · exact Or.inr ⟨hr, Finset.mem_insert_of_mem, fun _ ↦ EsMap.LiveFrom.set⟩
  refine ⟨by rw [hkeeps.length]; exact h.bound, fun r m hm ↦ ?_, fun ch hch ↦ ?_,
    fun a attempt hget ↦ hkeeps.stageOk (h.attempts a attempt hget), h.calls⟩
  · change (p.roomSubscriptionCounts.set R n).get r = some m at hm
    rw [EsMap.get_set] at hm
    split at hm
    · cases hm
      exact hn
    · exact h.pos r m hm
  · rw [hdrained, Finset.mem_insert] at hch
    rcases hch with rfl | hch
    · exact Or.inr (Or.inr ⟨R, counted_setRoomCount.mpr (Or.inl rfl), rfl⟩)
    · refine (h.sound ch hch).imp id (Or.imp id ?_)
      rintro ⟨r, hr, heq⟩
      exact ⟨r, counted_setRoomCount.mpr (Or.inr hr), heq⟩

/-- A room is no longer counted and its UNLISTEN issued. -/
theorem Agreement.unlistenRoom (h : Agreement p) (R : RoomId) (issuer : Issuer) :
    Agreement ((p.deleteRoomCount R).clientQuery p.listenClient
      ⟨.unlisten, getRoomNotifyChannel R, issuer⟩) := by
  have hdrained : ((p.deleteRoomCount R).clientQuery p.listenClient
      ⟨.unlisten, getRoomNotifyChannel R, issuer⟩).drained =
      p.drained.erase (getRoomNotifyChannel R) := drained_clientQuery h.bound
  have hkeeps : Keeps p ((p.deleteRoomCount R).clientQuery p.listenClient
      ⟨.unlisten, getRoomNotifyChannel R, issuer⟩) := by
    refine ⟨rfl, length_updateClient _ _ _, fun hp ↦ ?_, fun ht ↦ ?_, fun r hr ↦ ?_⟩
    · rw [hdrained]
      exact Finset.mem_erase_of_ne_of_mem (getRoomNotifyChannel_ne_presence R).symm hp
    · rw [hdrained]
      exact Finset.mem_erase_of_ne_of_mem (getRoomNotifyChannel_ne_typing R).symm ht
    · obtain ⟨hne, hr⟩ := counted_deleteRoomCount.mp hr
      refine Or.inr ⟨hr, fun hmem ↦ ?_, fun _ ↦ EsMap.LiveFrom.delete hne⟩
      rw [hdrained]
      exact Finset.mem_erase_of_ne_of_mem (fun heq ↦ hne (getRoomNotifyChannel_inj.mp heq)) hmem
  refine ⟨by rw [hkeeps.length]; exact h.bound, fun r m hm ↦ ?_, fun ch hch ↦ ?_,
    fun a attempt hget ↦ hkeeps.stageOk (h.attempts a attempt hget), h.calls⟩
  · change (p.roomSubscriptionCounts.delete R).get r = some m at hm
    rw [EsMap.get_delete] at hm
    split at hm
    · cases hm
    · exact h.pos r m hm
  · rw [hdrained, Finset.mem_erase] at hch
    refine (h.sound ch hch.2).imp id (Or.imp id ?_)
    rintro ⟨r, hr, rfl⟩
    refine ⟨r, counted_deleteRoomCount.mpr ⟨?_, hr⟩, rfl⟩
    rintro rfl
    exact hch.1 rfl

theorem Agreement.subscribe (h : Agreement p) (R : RoomId) :
    Agreement (p.subscribeToRoomChannel R) := by
  rw [subscribeToRoomChannel]
  split
  · exact (h.listenRoom R (Nat.le_add_left 1 _) _).addCall (by rintro ⟨⟩)
  · rename_i hcount
    exact (h.setRoomCount (counted_of_roomCount_ne_zero hcount) (Nat.le_add_left 1 _)).addCall
      (by rintro ⟨⟩)

theorem Agreement.unsubscribe (h : Agreement p) (R : RoomId) :
    Agreement (p.unsubscribeFromRoomChannel R) := by
  rw [unsubscribeFromRoomChannel]
  split
  · exact h.addCall (by rintro ⟨⟩)
  · rename_i hcount
    split
    · rename_i hpos
      exact (h.setRoomCount (counted_of_roomCount_ne_zero hcount) hpos).addCall (by rintro ⟨⟩)
    · exact (h.unlistenRoom R _).addCall (by rintro ⟨⟩)

/-! ## Attempts -/

/-- A LISTEN for a global channel or a counted room is issued on any client. -/
theorem Agreement.clientQuery (h : Agreement p) (c : ℕ) (issuer : Issuer) {ch : Channel}
    (hch : ch = presenceChannel ∨ ch = typingChannel ∨
      ∃ r, p.Counted r ∧ ch = getRoomNotifyChannel r) :
    Agreement (p.clientQuery c ⟨.listen, ch, issuer⟩) ∧
      Keeps p (p.clientQuery c ⟨.listen, ch, issuer⟩) ∧
      (c = p.listenClient → ch ∈ (p.clientQuery c ⟨.listen, ch, issuer⟩).drained) := by
  have hsubset : p.drained ⊆ (p.clientQuery c ⟨.listen, ch, issuer⟩).drained := by
    by_cases hc : c = p.listenClient
    · subst hc
      rw [drained_clientQuery h.bound]
      exact Finset.subset_insert _ _
    · rw [drained_clientQuery_of_ne hc]
  have hkeeps : Keeps p (p.clientQuery c ⟨.listen, ch, issuer⟩) :=
    ⟨rfl, length_updateClient _ _ _, fun hp ↦ hsubset hp, fun ht ↦ hsubset ht,
      fun r hr ↦ Or.inr ⟨hr, fun hmem ↦ hsubset hmem, fun _ ↦ id⟩⟩
  refine ⟨⟨by rw [hkeeps.length]; exact h.bound, h.pos, fun ch' hch' ↦ ?_,
    fun a attempt hget ↦ hkeeps.stageOk (h.attempts a attempt hget), h.calls⟩, hkeeps, ?_⟩
  · by_cases hc : c = p.listenClient
    · subst hc
      rw [drained_clientQuery h.bound] at hch'
      rcases Finset.mem_insert.mp hch' with rfl | hch'
      · exact hch
      · exact h.sound ch' hch'
    · rw [drained_clientQuery_of_ne hc] at hch'
      exact h.sound ch' hch'
  · rintro rfl
    rw [drained_clientQuery h.bound]
    exact Finset.mem_insert_self _ _

/-- An attempt reaches a stage at which what is asked of it holds. -/
theorem Agreement.setAttempt (h : Agreement p) {a : ℕ} {attempt : Attempt}
    (hok : p.StageOk attempt.stage) : Agreement (p.setAttempt a attempt) := by
  refine h.frame (Keeps.of_eq rfl rfl rfl rfl) rfl rfl (fun a' attempt' hget ↦ ?_) h.calls
  change (p.attempts.set a attempt)[a']? = some attempt' at hget
  rw [List.getElem?_set] at hget
  split at hget
  · split at hget
    · cases hget
      exact Or.inl ((Keeps.of_eq rfl rfl rfl rfl).stageOk hok)
    · cases hget
  · exact Or.inr ⟨attempt', hget, rfl⟩

/-- The iterator moves on from position `i`, before which everything is covered. -/
theorem Agreement.visitRooms (h : Agreement p) {a c i : ℕ} {attempt : Attempt}
    (hc : c < p.clients.length) (hcov : c = p.listenClient → p.Covered (.room i)) :
    Agreement (p.visitRooms a attempt c i) := by
  rw [PostgresService.visitRooms]
  split
  · rename_i j R v hnext
    obtain ⟨-, hlive, hahead⟩ := EsMap.next_eq_some hnext
    have hR : p.Counted R := by
      rw [Counted, EsMap.get_eq_some_iff.mpr (List.mem_of_getElem? hlive)]
      rfl
    obtain ⟨hagree, hkeeps, hmem⟩ := h.clientQuery c (.attempt a)
      (Or.inr (Or.inr ⟨R, hR, rfl⟩))
    refine hagree.setAttempt ⟨by rw [hkeeps.length]; exact hc, fun hcl ↦ ?_⟩
    obtain ⟨hp, ht, hrooms⟩ := hkeeps.covered (hcov hcl)
    refine ⟨hp, ht, fun r hr ↦ ?_⟩
    rcases hrooms r hr with hdrained | hlive
    · exact Or.inl hdrained
    · rcases hahead r hlive with rfl | hlive
      · exact Or.inl (hmem hcl)
      · exact Or.inr hlive
  · rename_i hnext
    have hdone :
        Agreement (p.setAttempt a { attempt with stage := .finished c, settled := none }) := by
      refine h.setAttempt ⟨hc, fun hcl ↦ ?_⟩
      obtain ⟨hp, ht, hrooms⟩ := hcov hcl
      exact ⟨hp, ht, fun r hr ↦
        (hrooms r hr).resolve_right (EsMap.next_eq_none hnext r)⟩
    exact hdone.frame (Keeps.of_eq rfl rfl rfl rfl) rfl rfl
      (fun _ attempt hget ↦ Or.inr ⟨attempt, hget, rfl⟩) hdone.calls

theorem Agreement.continueAttempt (h : Agreement p) {a : ℕ} {attempt : Attempt}
    (hget : p.attempts[a]? = some attempt) {p' : PostgresService}
    (hstep : p.continueAttempt a attempt = some p') : Agreement p' := by
  have hok := h.attempts a attempt hget
  rw [PostgresService.continueAttempt] at hstep
  split at hstep
  · cases hstep
    obtain ⟨hagree, hkeeps, hmem⟩ := h.clientQuery p.listenClient (.attempt a) (Or.inl rfl)
    exact hagree.setAttempt ⟨by rw [hkeeps.length]; exact h.bound, fun _ ↦ hmem rfl⟩
  · rename_i c hstage
    cases hstep
    rw [hstage] at hok
    obtain ⟨hagree, hkeeps, hmem⟩ := h.clientQuery c (.attempt a) (Or.inr (Or.inl rfl))
    exact hagree.setAttempt ⟨by rw [hkeeps.length]; exact hok.1,
      fun hc ↦ ⟨hkeeps.presence (hok.2 hc), hmem hc⟩⟩
  · rename_i c hstage
    cases hstep
    rw [hstage] at hok
    exact h.visitRooms hok.1 fun hc ↦ ⟨(hok.2 hc).1, (hok.2 hc).2, fun r hr ↦
      Or.inr (EsMap.liveFrom_zero_iff.mpr hr)⟩
  · rename_i c i hstage
    cases hstep
    rw [hstage] at hok
    exact h.visitRooms hok.1 hok.2
  all_goals cases hstep

theorem Agreement.scheduleReconnect (h : Agreement p) : Agreement p.scheduleReconnect := by
  rw [PostgresService.scheduleReconnect]
  split
  · exact h
  · exact h.frame (Keeps.of_eq rfl rfl rfl rfl) rfl rfl
      (fun _ attempt hget ↦ Or.inr ⟨attempt, hget, rfl⟩) h.calls

theorem Agreement.failAttempt (h : Agreement p) {a : ℕ} {attempt : Attempt} :
    Agreement (p.failAttempt a attempt) := by
  have hfailed : Agreement (p.setAttempt a { attempt with stage := .failed, settled := none }) :=
    h.setAttempt trivial
  rw [PostgresService.failAttempt]
  split
  · exact hfailed
  · exact hfailed.scheduleReconnect

/-- A client changes in other ways than by commands. -/
theorem Agreement.updateClient (h : Agreement p) {c : ℕ} {f : Client → Client}
    (hf : ∀ cl, p.clients[c]? = some cl → (f cl).drained = cl.drained) :
    Agreement (p.updateClient c f) :=
  h.frame (Keeps.of_eq rfl (length_updateClient _ _ _) (drained_updateClient hf) rfl)
    (drained_updateClient hf) rfl (fun _ attempt hget ↦ Or.inr ⟨attempt, hget, rfl⟩) h.calls

theorem Agreement.doReconnect (h : Agreement p) : Agreement p.doReconnect := by
  rw [PostgresService.doReconnect]
  split
  · exact h
  · have hold : Agreement (p.updateClient p.listenClient fun cl ↦
        { cl with wired := false, ended := true }) := h.updateClient fun _ _ ↦ rfl
    refine hold.frame (Keeps.of_eq rfl rfl rfl rfl) rfl rfl (fun a attempt hget ↦ ?_) hold.calls
    change (p.attempts ++ [_])[a]? = some attempt at hget
    rw [List.getElem?_append] at hget
    split at hget
    · exact Or.inr ⟨attempt, hget, rfl⟩
    · obtain rfl := List.mem_singleton.mp (List.mem_of_getElem? hget)
      exact Or.inl trivial

/-- A fresh client is installed. Nothing has been covered on it, and nothing is asked of attempts
that work on other clients. -/
theorem Agreement.installClient (h : Agreement p) (a : ℕ) (attempt : Attempt) :
    Agreement (p.installClient a attempt) := by
  have hlength : (p.clients ++ [({} : Client)]).length = p.clients.length + 1 :=
    List.length_append
  refine ⟨Nat.lt_of_lt_of_eq (Nat.lt_succ_self _) hlength.symm, h.pos, fun ch hch ↦ ?_,
    fun a' attempt' hget ↦ ?_, h.calls⟩
  · change ch ∈ ((p.clients ++ [({} : Client)])[p.clients.length]?.map Client.drained).getD ∅
      at hch
    rw [List.getElem?_concat_length] at hch
    exact absurd hch (Finset.notMem_empty ch)
  · change (p.attempts.set a _)[a']? = some attempt' at hget
    rw [List.getElem?_set] at hget
    have hlt : ∀ {c}, c < p.clients.length → c < (p.clients ++ [({} : Client)]).length := fun hc ↦
      Nat.lt_of_lt_of_eq (Nat.lt_succ_of_lt hc) hlength.symm
    split at hget
    · split at hget
      · cases hget
        exact Nat.lt_of_lt_of_eq (Nat.lt_succ_self _) hlength.symm
      · cases hget
    · have hok := h.attempts a' attempt' hget
      revert hok
      cases attempt'.stage with
      | ending => exact id
      | failed => exact id
      | connecting c => exact hlt
      | ensuring c point => exact fun hok ↦ ⟨hlt hok.1, fun hc ↦ absurd hc (Nat.ne_of_lt hok.1)⟩
      | finished c => exact fun hok ↦ ⟨hlt hok.1, fun hc ↦ absurd hc (Nat.ne_of_lt hok.1)⟩

/-! ## Steps -/

/-- A command succeeds. -/
theorem Agreement.settle (h : Agreement p) (issuer : Issuer) :
    Agreement (p.settle issuer true) := by
  cases issuer with
  | call id =>
    refine h.frame (Keeps.of_eq rfl rfl rfl rfl) rfl rfl
      (fun _ attempt hget ↦ Or.inr ⟨attempt, hget, rfl⟩) fun call hcall ↦ ?_
    obtain ⟨i, hi⟩ := List.mem_iff_getElem?.mp hcall
    change (p.calls.modify id _)[i]? = some call at hi
    rw [List.getElem?_modify, Option.map_eq_map, Option.map_eq_some_iff] at hi
    obtain ⟨old, hold, rfl⟩ := hi
    split
    · nofun
    · exact h.calls old (List.mem_of_getElem? hold)
  | attempt a =>
    refine h.frame (Keeps.of_eq rfl rfl rfl rfl) rfl rfl (fun a' attempt hget ↦ ?_) h.calls
    change (p.attempts.modify a _)[a']? = some attempt at hget
    rw [List.getElem?_modify, Option.map_eq_map, Option.map_eq_some_iff] at hget
    obtain ⟨old, hold, rfl⟩ := hget
    refine Or.inr ⟨old, hold, ?_⟩
    split <;> rfl

theorem Agreement.returnCall (h : Agreement p) {id : ℕ} {call : Call} {ok : Bool} :
    Agreement (p.setCall id { call with status := .returned ok }) := by
  refine h.frame (Keeps.of_eq rfl rfl rfl rfl) rfl rfl
    (fun _ attempt hget ↦ Or.inr ⟨attempt, hget, rfl⟩) fun call' hcall ↦ ?_
  rcases List.mem_or_eq_of_mem_set hcall with hcall | rfl
  · exact h.calls call' hcall
  · nofun

theorem Agreement.notify (h : Agreement p) (note : Notification) : Agreement (p.notify note) := by
  have hdrained : (p.notify note).drained = p.drained := by
    refine drained_congr ?_
    change (p.clients.map _)[p.listenClient]?.map Client.drained = _
    rw [List.getElem?_map, Option.map_map]
    congr 1
    funext cl
    rw [Function.comp_apply]
    split <;> rfl
  exact h.frame (Keeps.of_eq rfl (List.length_map _) hdrained rfl) hdrained rfl
    (fun _ attempt hget ↦ Or.inr ⟨attempt, hget, rfl⟩) h.calls

/-- **Step lemma.** -/
theorem Agreement.step (h : Agreement p) {e : PgEvent} (he : e.Succeeds) {p' : PostgresService}
    (hstep : p.step e = some p') : Agreement p' := by
  cases e with
  | subscribe R =>
    cases hstep
    exact h.subscribe R
  | unsubscribe R =>
    cases hstep
    exact h.unsubscribe R
  | execCommand c ok =>
    obtain rfl : ok = true := he
    simp only [PostgresService.step, Option.bind_eq_bind, Option.bind_eq_some_iff] at hstep
    obtain ⟨cl, hget, -, -, hstep⟩ := hstep
    split at hstep
    · cases hstep
    · rename_i cmd rest hqueue
      cases hstep
      refine (h.updateClient fun cl' hget' ↦ ?_).settle cmd.issuer
      obtain rfl : cl = cl' := Option.some.inj (hget.symm.trans hget')
      exact Client.drained_exec hqueue
  | resumeCall id =>
    simp only [PostgresService.step, Option.bind_eq_bind, Option.bind_eq_some_iff] at hstep
    obtain ⟨call, hget, hstep⟩ := hstep
    split at hstep
    · cases hstep
      exact h.returnCall
    · rename_i hstatus
      exact absurd hstatus (h.calls call (List.mem_of_getElem? hget))
    all_goals cases hstep
  | clientError c =>
    simp only [PostgresService.step, Option.bind_eq_bind, Option.bind_eq_some_iff] at hstep
    obtain ⟨cl, -, -, -, hstep⟩ := hstep
    cases hstep
    have herrored : Agreement (p.updateClient c fun cl ↦ { cl with errored := true }) :=
      h.updateClient fun _ _ ↦ rfl
    exact herrored.scheduleReconnect
  | reconnectTimerFires =>
    rw [PostgresService.step] at hstep
    split at hstep
    · cases hstep
      refine Agreement.doReconnect ?_
      exact h.frame (Keeps.of_eq rfl rfl rfl rfl) rfl rfl
        (fun _ attempt hget ↦ Or.inr ⟨attempt, hget, rfl⟩) h.calls
    · cases hstep
  | endSettles a =>
    simp only [PostgresService.step, Option.bind_eq_bind, Option.bind_eq_some_iff] at hstep
    obtain ⟨attempt, -, -, -, hstep⟩ := hstep
    cases hstep
    exact h.installClient a attempt
  | connectSettles a ok =>
    simp only [PostgresService.step, Option.bind_eq_bind, Option.bind_eq_some_iff] at hstep
    obtain ⟨attempt, hget, hstep⟩ := hstep
    split at hstep
    · rename_i c hstage hsettled
      cases hstep
      have hconnected : Agreement (p.updateClient c fun cl ↦ { cl with connected := ok }) :=
        h.updateClient fun _ _ ↦ rfl
      exact hconnected.setAttempt (hconnected.attempts a attempt hget)
    · cases hstep
  | resumeAttempt a =>
    simp only [PostgresService.step, Option.bind_eq_bind, Option.bind_eq_some_iff] at hstep
    obtain ⟨attempt, hget, hstep⟩ := hstep
    split at hstep
    · exact h.continueAttempt hget hstep
    · cases hstep
      exact h.failAttempt
    · cases hstep
  | notify note =>
    cases hstep
    exact h.notify note
  | deliver c =>
    simp only [PostgresService.step, Option.bind_eq_bind, Option.bind_eq_some_iff] at hstep
    obtain ⟨cl, -, -, -, hstep⟩ := hstep
    cases hstep
    exact h.updateClient fun _ _ ↦ rfl
  | destroy =>
    cases hstep
    have hended : Agreement (p.updateClient p.listenClient fun cl ↦ { cl with ended := true }) :=
      h.updateClient fun _ _ ↦ rfl
    exact hended.frame (Keeps.of_eq rfl rfl rfl rfl) rfl rfl
      (fun _ attempt hget ↦ Or.inr ⟨attempt, hget, rfl⟩) hended.calls

/-- **Run lemma.** -/
theorem agreement_of_run {q : PostgresService} (hq : Agreement q) {es : List PgEvent}
    (hok : ∀ e ∈ es, e.Succeeds) (hrun : run step q es = some p) : Agreement p :=
  guarded_invariant Agreement (fun h he hstep ↦ h.step he hstep) hq (guarded_of_forall _ hok q) hrun

/-! ## Agreement at rest -/

theorem drained_eq_listening {cl : Client} (hget : p.clients[p.listenClient]? = some cl)
    (hqueue : cl.queue = []) : p.drained = cl.listening := by
  rw [drained, hget, Option.map_some, Option.getD_some, Client.drained, hqueue, List.foldl_nil]

/-- Only counted rooms are listened on once the queue is executed. -/
theorem Agreement.listening_sound (h : Agreement p) {cl : Client}
    (hget : p.clients[p.listenClient]? = some cl) (hqueue : cl.queue = []) {r : RoomId}
    (hr : getRoomNotifyChannel r ∈ cl.listening) : p.Counted r := by
  rw [← drained_eq_listening hget hqueue] at hr
  rcases h.sound _ hr with heq | heq | ⟨r', hr', heq⟩
  · exact absurd heq (getRoomNotifyChannel_ne_presence r)
  · exact absurd heq (getRoomNotifyChannel_ne_typing r)
  · exact getRoomNotifyChannel_inj.mp heq ▸ hr'

/-- Every counted room is listened on once the loop is over and the queue is executed. -/
theorem Agreement.listening_complete (h : Agreement p) {cl : Client}
    (hget : p.clients[p.listenClient]? = some cl) (hqueue : cl.queue = []) {a : ℕ}
    {attempt : Attempt} (hattempt : p.attempts[a]? = some attempt)
    (hfinished : attempt.stage = .finished p.listenClient) :
    presenceChannel ∈ cl.listening ∧ typingChannel ∈ cl.listening ∧
      ∀ r, p.Counted r → getRoomNotifyChannel r ∈ cl.listening := by
  have hok := h.attempts a attempt hattempt
  rw [hfinished] at hok
  have hcov := hok.2 rfl
  rw [CoveredAll, drained_eq_listening hget hqueue] at hcov
  exact hcov

/-- In every run without a failing command: when the loop of `ensureListenChannels` on the current
client is over and no command is pending on it, the connection listens on `presence`, `typing` and
the channels of the keys of `roomSubscriptionCounts`, on nothing else, and every stored count is at
least one. -/
theorem listening_eq_counted {nodeId : JsString} {es : List PgEvent}
    (hrun : run step (start nodeId) es = some p) (hok : ∀ e ∈ es, e.Succeeds) {a : ℕ}
    {attempt : Attempt} (hattempt : p.attempts[a]? = some attempt)
    (hfinished : attempt.stage = .finished p.listenClient) {cl : Client}
    (hget : p.clients[p.listenClient]? = some cl) (hqueue : cl.queue = []) :
    (∀ ch, ch ∈ cl.listening ↔ ch = presenceChannel ∨ ch = typingChannel ∨
        ∃ r ∈ p.roomSubscriptionCounts.keys, ch = getRoomNotifyChannel r) ∧
      ∀ r n, p.roomSubscriptionCounts.get r = some n → 1 ≤ n := by
  have hagree := agreement_of_run (agreement_start nodeId) hok hrun
  obtain ⟨hpresence, htyping, hrooms⟩ :=
    hagree.listening_complete hget hqueue hattempt hfinished
  refine ⟨fun ch ↦ ⟨fun hch ↦ ?_, ?_⟩, hagree.pos⟩
  · rw [← drained_eq_listening hget hqueue] at hch
    simp only [EsMap.mem_keys_iff]
    exact hagree.sound ch hch
  · rintro (rfl | rfl | ⟨r, hr, rfl⟩)
    · exact hpresence
    · exact htyping
    · exact hrooms r (EsMap.mem_keys_iff.mp hr)

/-- A reconnect during which one room is subscribed before the new client is connected, and another
is unsubscribed while its own LISTEN is the one the loop awaits. -/
theorem listening_eq_counted_after_reconnect :
    ∃ p, run step (start []) [.connectSettles 0 true, .resumeAttempt 0, .execCommand 0 true,
        .resumeAttempt 0, .execCommand 0 true, .resumeAttempt 0, .subscribe [0x61],
        .execCommand 0 true, .resumeCall 0, .clientError 0, .reconnectTimerFires, .endSettles 1,
        .subscribe [0x62], .connectSettles 1 true, .resumeAttempt 1, .execCommand 1 true,
        .execCommand 1 true, .resumeAttempt 1, .execCommand 1 true, .resumeAttempt 1,
        .unsubscribe [0x61], .execCommand 1 true, .resumeAttempt 1, .execCommand 1 true,
        .execCommand 1 true, .resumeAttempt 1] = some p ∧
      p.roomSubscriptionCounts.keys = [[0x62]] ∧
      ∃ cl, p.clients[p.listenClient]? = some cl ∧ ∀ ch, ch ∈ cl.listening ↔
        ch = presenceChannel ∨ ch = typingChannel ∨
          ∃ r ∈ p.roomSubscriptionCounts.keys, ch = getRoomNotifyChannel r := by
  refine exists_run_of_any (fun p : PostgresService ↦
    p.roomSubscriptionCounts.keys = [[0x62]] ∧
      p.attempts[1]?.map Attempt.stage = some (.finished p.listenClient) ∧
      p.clients[p.listenClient]?.map Client.queue = some []) (by decide) ?_
  rintro p hrun ⟨hkeys, hattempt, hclient⟩
  obtain ⟨attempt, hattempt, hfinished⟩ := Option.map_eq_some_iff.mp hattempt
  obtain ⟨cl, hget, hqueue⟩ := Option.map_eq_some_iff.mp hclient
  exact ⟨hkeys, cl, hget, (listening_eq_counted hrun
    (by simp [PgEvent.Succeeds]) hattempt hfinished hget hqueue).1⟩

end PostgresService

end PostgresChat
