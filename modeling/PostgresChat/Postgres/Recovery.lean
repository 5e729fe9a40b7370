import Mathlib.Algebra.Order.BigOperators.Group.List
import PostgresChat.Postgres.Awaited
import PostgresChat.Postgres.Outstanding
import PostgresChat.Postgres.Upkeep

/-!
# Recovering

Once the server answers, the service finds its way back by itself: whatever has gone wrong before,
and however the steps that are left interleave, it comes to rest, and it rests with a connected
client, nothing queued, and no call of `subscribeToRoomChannel` or `unsubscribeFromRoomChannel` left
waiting.

The steps that are left are those that `Responds` admits: a client that works connects and executes
its commands, a client that has failed or ended rejects them, and the timer fires once no attempt is
left on a client that has failed. None of them is forced to come first. That there can be only
finitely many is the matter of `work`: a settled promise, an executed command, a returned call each
lower it, and an attempt that fails arms the timer only if it had not been armed by the error that
made it fail. The loop of `ensureListenChannels` visits at most as many keys as there are records,
and records are added only by the calls that are rolled back meanwhile (`rounds`).
-/

namespace PostgresChat

open Execution

/-- What waits on a client: commands for the server, notifications for the node. -/
def Client.load (cl : Client) : ℕ := cl.queue.length + cl.inbox.length

/-- The call has not returned. -/
def CallStatus.unreturned : CallStatus → Bool
  | .waiting | .settled _ => true
  | .returned _ => false

/-- A bound on the steps of an attempt and on those that its failure brings about, when the loop of
`ensureListenChannels` has at most `rounds` records to visit. -/
def Attempt.work (rounds : ℕ) (timer : Bool) (attempt : Attempt) : ℕ :=
  match attempt.stage with
  | .finished _ | .failed => 0
  | stage =>
    if attempt.settled = some false then if timer then 1 else 2 * rounds + 10
    else match stage with
      | .ensuring _ .presence => 2 * rounds + 4
      | .ensuring _ .typing => 2 * rounds + 2
      | .ensuring _ (.room i) => 2 * (rounds - i) + 1
      | .connecting _ => if attempt.settled = none then 2 * rounds + 7 else 2 * rounds + 6
      | .ending | .finished _ | .failed => 2 * rounds + 8

theorem Attempt.work_of_not_underWay {attempt : Attempt} (h : attempt.stage.underWay = false)
    (rounds : ℕ) (timer : Bool) : attempt.work rounds timer = 0 := by
  obtain ⟨stage, settled, initial⟩ := attempt
  cases stage with
  | finished c => rfl
  | failed => rfl
  | ending => cases h
  | connecting c => cases h
  | ensuring c point => cases h

/-- The work of an attempt grows with the rounds, and it is less when the timer is armed. -/
theorem Attempt.work_mono {rounds rounds' : ℕ} (hrounds : rounds' ≤ rounds) {timer timer' : Bool}
    (htimer : timer = true → timer' = true) (attempt : Attempt) :
    attempt.work rounds' timer' ≤ attempt.work rounds timer := by
  obtain ⟨stage, settled, initial⟩ := attempt
  have hfailed : (if timer' then 1 else 2 * rounds' + 10) ≤
      if timer then 1 else 2 * rounds + 10 := by
    cases timer with
    | true => rw [htimer rfl, if_pos rfl, if_pos rfl]
    | false =>
      cases timer' with
      | true => simp
      | false => simpa using hrounds
  cases stage with
  | finished c => exact le_rfl
  | failed => exact le_rfl
  | ending =>
    simp only [Attempt.work]
    split
    · exact hfailed
    · omega
  | connecting c =>
    simp only [Attempt.work]
    split
    · exact hfailed
    · split <;> omega
  | ensuring c point =>
    simp only [Attempt.work]
    split
    · exact hfailed
    · cases point <;> simp only <;> omega

namespace PostgresService

variable {p p' q : PostgresService}

/-! ## Responses -/

/-- What is left to the server, the driver and the runtime when nobody calls the service, nothing is
posted and no client fails. -/
def Responds (p : PostgresService) : PgEvent → Prop
  | .execCommand c ok => ok = false → ∀ cl ∈ p.clients[c]?, cl.errored = true ∨ cl.ended = true
  | .connectSettles a ok => ∀ attempt ∈ p.attempts[a]?, ∀ c ∈ attempt.stage.client?,
      ∀ cl ∈ p.clients[c]?, ok = !cl.errored
  | .reconnectTimerFires => p.FailsFast .reconnectTimerFires
  | .resumeCall _ | .endSettles _ | .resumeAttempt _ | .deliver _ => True
  | .subscribe _ | .unsubscribe _ | .clientError _ | .notify _ | .destroy => False

instance (p : PostgresService) : (e : PgEvent) → Decidable (p.Responds e)
  | .execCommand c ok => inferInstanceAs (Decidable (ok = false →
      ∀ cl ∈ p.clients[c]?, cl.errored = true ∨ cl.ended = true))
  | .connectSettles a ok => inferInstanceAs (Decidable (∀ attempt ∈ p.attempts[a]?,
      ∀ c ∈ attempt.stage.client?, ∀ cl ∈ p.clients[c]?, ok = !cl.errored))
  | .reconnectTimerFires => inferInstanceAs (Decidable (p.FailsFast .reconnectTimerFires))
  | .resumeCall _ | .endSettles _ | .resumeAttempt _ | .deliver _ => isTrue trivial
  | .subscribe _ | .unsubscribe _ | .clientError _ | .notify _ | .destroy => isFalse id

theorem Responds.failsFast {e : PgEvent} (h : p.Responds e) : p.FailsFast e := by
  cases e <;> first | exact h | trivial

/-- A service that is not destroyed, with all that holds of it. -/
structure Running (p : PostgresService) : Prop where
  one : OneWired p
  upkeep : Upkeep p
  awaited : Awaited p
  outstanding : p.Outstanding
  live : p.destroyed = false

theorem running_of_run {nodeId : JsString} {es : List PgEvent}
    (hguard : Guarded step FailsFast (ready nodeId) es) (hrun : run step (ready nodeId) es = some p)
    (hlive : p.destroyed = false) : Running p := by
  have hinv := guarded_invariant
    (fun p ↦ OneWired p ∧ Awaited p ∧ p.Outstanding ∧ (p.destroyed = false → Upkeep p))
    (fun {p e p'} ⟨hone, hawaited, houtstanding, hupkeep⟩ he hstep ↦
      ⟨hone.step he hstep, hawaited.step hstep, houtstanding.step hstep, fun hlive ↦ by
        refine (hupkeep ?_).step hone he hstep hlive
        rcases (moved_of_step hstep).destroyed with hsame | ⟨-, hset⟩
        · exact hsame.symm.trans hlive
        · rw [hset] at hlive
          cases hlive⟩)
    ⟨oneWired_ready nodeId, awaited_ready nodeId, outstanding_ready nodeId,
      fun _ ↦ upkeep_ready nodeId⟩ hguard hrun
  exact ⟨hinv.1, hinv.2.2.2 hlive, hinv.2.1, hinv.2.2.1, hlive⟩

theorem Running.step (h : Running p) {e : PgEvent} (he : p.Responds e)
    (hstep : p.step e = some p') : Running p' := by
  have hlive : p'.destroyed = false := by
    rcases (moved_of_step hstep).destroyed with hsame | ⟨rfl, -⟩
    · exact hsame.trans h.live
    · exact he.elim
  exact ⟨h.one.step he.failsFast hstep, h.upkeep.step h.one he.failsFast hstep hlive,
    h.awaited.step hstep, h.outstanding.step hstep, hlive⟩

/-! ## Work -/

/-- All that waits on the clients. -/
def load (p : PostgresService) : ℕ := (p.clients.map Client.load).sum

def unreturned (p : PostgresService) : ℕ := p.calls.countP fun call ↦ call.status.unreturned

/-- The records there can be to visit: one for each that exists, and one for each call that may
still be rolled back. -/
def rounds (p : PostgresService) : ℕ := p.roomSubscriptionCounts.entries.length + p.unreturned

def attemptsWork (rounds : ℕ) (timer : Bool) (attempts : List Attempt) : ℕ :=
  (attempts.map (Attempt.work rounds timer)).sum

/-- A bound on the steps that are left. -/
def work (p : PostgresService) : ℕ :=
  p.load + p.unreturned + (if p.reconnectTimer then 2 * p.rounds + 9 else 0) +
    attemptsWork p.rounds p.reconnectTimer p.attempts

theorem attemptsWork_mono {rounds rounds' : ℕ} (hrounds : rounds' ≤ rounds) {timer timer' : Bool}
    (htimer : timer = true → timer' = true) (attempts : List Attempt) :
    attemptsWork rounds' timer' attempts ≤ attemptsWork rounds timer attempts :=
  List.sum_le_sum fun attempt _ ↦ Attempt.work_mono hrounds htimer attempt

theorem attemptsWork_set {attempts : List Attempt} {a : ℕ} {attempt : Attempt}
    (hget : attempts[a]? = some attempt) (attempt' : Attempt) (rounds : ℕ) (timer : Bool) :
    attemptsWork rounds timer (attempts.set a attempt') + attempt.work rounds timer =
      attemptsWork rounds timer attempts + attempt'.work rounds timer :=
  Lists.sum_map_set _ hget

/-! ## What waits on the clients -/

theorem load_of_clients_eq (h : p'.clients = p.clients) : p'.load = p.load := by
  rw [load, h, load]

theorem load_updateClient {c : ℕ} {cl : Client} (hget : p.clients[c]? = some cl)
    (f : Client → Client) : (p.updateClient c f).load + cl.load = p.load + (f cl).load :=
  Lists.sum_map_modify _ hget

theorem load_keep {c : ℕ} {f : Client → Client} (hf : ∀ cl, (f cl).load = cl.load) :
    (p.updateClient c f).load = p.load := by
  cases hget : p.clients[c]? with
  | none => exact load_of_clients_eq (List.modify_eq_self (List.getElem?_eq_none_iff.mp hget))
  | some cl =>
    have hsum := load_updateClient hget f
    rw [hf] at hsum
    exact Nat.add_right_cancel hsum

theorem load_clientQuery_le (c : ℕ) (cmd : Command) : (p.clientQuery c cmd).load ≤ p.load + 1 := by
  cases hget : p.clients[c]? with
  | none =>
    rw [load_of_clients_eq (p := p) (List.modify_eq_self (List.getElem?_eq_none_iff.mp hget))]
    exact Nat.le_add_right _ _
  | some cl =>
    have hsum := load_updateClient hget fun cl ↦ { cl with queue := cl.queue ++ [cmd] }
    simp only [Client.load, List.length_append, List.length_singleton] at hsum
    rw [clientQuery]
    omega

theorem clients_continueAttempt {a : ℕ} {attempt : Attempt}
    (hstep : p.continueAttempt a attempt = some p') :
    p'.load ≤ p.load + 1 ∧ p'.calls = p.calls ∧
      p'.roomSubscriptionCounts = p.roomSubscriptionCounts := by
  have hvisit : ∀ c i, (p.visitRooms a attempt c i).load ≤ p.load + 1 ∧
      (p.visitRooms a attempt c i).calls = p.calls ∧
      (p.visitRooms a attempt c i).roomSubscriptionCounts = p.roomSubscriptionCounts := by
    intro c i
    rw [visitRooms]
    split
    · exact ⟨load_clientQuery_le c _, rfl, rfl⟩
    · exact ⟨Nat.le_succ p.load, rfl, rfl⟩
  rw [continueAttempt.eq_def] at hstep
  split at hstep
  · cases hstep
    exact ⟨load_clientQuery_le _ _, rfl, rfl⟩
  · cases hstep
    exact ⟨load_clientQuery_le _ _, rfl, rfl⟩
  · cases hstep
    exact hvisit _ _
  · cases hstep
    exact hvisit _ _
  all_goals cases hstep

/-- An attempt that continues has less to do, even with the command it issues. -/
theorem work_continueAttempt {a : ℕ} {attempt : Attempt}
    (hsettled : attempt.settled = some true) (hstep : p.continueAttempt a attempt = some p')
    {rounds : ℕ} (hrounds : p.roomSubscriptionCounts.entries.length ≤ rounds) (timer : Bool) :
    ∃ attempt', p'.attempts = p.attempts.set a attempt' ∧
      (attempt'.work rounds timer + p'.load < attempt.work rounds timer + p.load) := by
  obtain ⟨stage, settled, initial⟩ := attempt
  obtain rfl : settled = some true := hsettled
  have hquery : ∀ c cmd, ((p.clientQuery c cmd).load) ≤ p.load + 1 := load_clientQuery_le
  have hvisit : ∀ c i n, 2 * (rounds - i) < n → ∃ attempt',
      (p.visitRooms a ⟨stage, some true, initial⟩ c i).attempts = p.attempts.set a attempt' ∧
      attempt'.work rounds timer + (p.visitRooms a ⟨stage, some true, initial⟩ c i).load <
        n + p.load := by
    intro c i n hn
    rw [visitRooms]
    split
    · rename_i j roomId n' hnext
      obtain ⟨hij, hlive, -⟩ := EsMap.next_eq_some hnext
      have hlt : j < rounds :=
        (List.getElem?_eq_some_iff.mp hlive).1.trans_le hrounds
      refine ⟨⟨.ensuring c (.room (j + 1)), none, initial⟩, rfl, ?_⟩
      have hload := hquery c ⟨.listen, getRoomNotifyChannel roomId, .attempt a⟩
      change 2 * (rounds - (j + 1)) + 1 + (p.clientQuery c _).load < _
      omega
    · refine ⟨⟨.finished c, none, initial⟩, rfl, ?_⟩
      change 0 + p.load < _
      omega
  cases stage with
  | connecting c =>
    cases hstep
    refine ⟨⟨.ensuring p.listenClient .presence, none, initial⟩, rfl, ?_⟩
    have hload := hquery p.listenClient ⟨.listen, presenceChannel, .attempt a⟩
    change 2 * rounds + 4 + (p.clientQuery p.listenClient _).load < 2 * rounds + 6 + p.load
    omega
  | ensuring c point =>
    cases point with
    | presence =>
      cases hstep
      refine ⟨⟨.ensuring c .typing, none, initial⟩, rfl, ?_⟩
      have hload := hquery c ⟨.listen, typingChannel, .attempt a⟩
      change 2 * rounds + 2 + (p.clientQuery c _).load < 2 * rounds + 4 + p.load
      omega
    | typing =>
      cases hstep
      exact hvisit c 0 (2 * rounds + 2) (by omega)
    | room i =>
      cases hstep
      exact hvisit c i (2 * (rounds - i) + 1) (Nat.lt_succ_self _)
  | ending => cases hstep
  | finished c => cases hstep
  | failed => cases hstep

/-- What `work` is made of, compared. -/
theorem work_lt_of (hrounds : p'.rounds = p.rounds)
    (htimer : p'.reconnectTimer = p.reconnectTimer)
    (hlt : p'.load + p'.unreturned + attemptsWork p.rounds p.reconnectTimer p'.attempts <
      p.load + p.unreturned + attemptsWork p.rounds p.reconnectTimer p.attempts) :
    p'.work < p.work := by
  rw [work, work, hrounds, htimer]
  omega

theorem rounds_eq (hcounts : p'.roomSubscriptionCounts = p.roomSubscriptionCounts)
    (hcalls : p'.unreturned = p.unreturned) : p'.rounds = p.rounds := by
  rw [rounds, rounds, hcounts, hcalls]

theorem unreturned_eq (hcalls : p'.calls = p.calls) : p'.unreturned = p.unreturned := by
  rw [unreturned, hcalls, unreturned]

/-! ## Every step lowers the work -/

/-- An attempt on a client that has failed is under way while the timer is armed. -/
theorem Running.timer_of_errored (h : Running p) {a c : ℕ} {attempt : Attempt} {cl : Client}
    (hget : p.attempts[a]? = some attempt) (hc : attempt.stage.client? = some c)
    (hcl : p.clients[c]? = some cl) (hfailed : cl.errored = true ∨ cl.ended = true) :
    p.reconnectTimer = true := by
  obtain ⟨cl', hcl', -, hended, herrored⟩ := h.upkeep.minded a attempt hget c hc
  obtain rfl : cl = cl' := Option.some.inj (hcl.symm.trans hcl')
  refine herrored (hfailed.resolve_right fun hend ↦ ?_)
  rw [hended] at hend
  cases hend

/-- A command settles. -/
theorem Running.work_execCommand (h : Running p) {c : ℕ} {cl : Client} {cmd : Command}
    {rest : List Command} {ok : Bool} (hcl : p.clients[c]? = some cl)
    (hqueue : cl.queue = cmd :: rest)
    (hresponds : ok = false → cl.errored = true ∨ cl.ended = true) {f : Client → Client}
    (hf : (f cl).queue = rest ∧ (f cl).inbox = cl.inbox) :
    ((p.updateClient c f).settle cmd.issuer ok).work < p.work := by
  have hload : (p.updateClient c f).load + 1 = p.load := by
    have hsum := load_updateClient hcl f
    rw [Client.load, Client.load, hf.1, hf.2, hqueue, List.length_cons] at hsum
    omega
  cases hissuer : cmd.issuer with
  | call id =>
    -- A call that has a queued command is waiting, and settling it does not return it.
    have hunreturned : ((p.updateClient c f).settle (.call id) ok).unreturned = p.unreturned := by
      have hone : 1 ≤ p.queued id := by
        have hsum := queued_exec (f := f) hcl hqueue hf.1 id
        rw [if_pos hissuer] at hsum
        omega
      have hwaiting := hone.trans (h.outstanding id)
      have hstatus : p.calls[id]?.map Call.status = some .waiting := by
        by_contra hnot
        rw [if_neg hnot] at hwaiting
        cases hwaiting
      obtain ⟨call, hget, hcall⟩ := Option.map_eq_some_iff.mp hstatus
      have hcount := Lists.countP_set_add (b := { call with status := .settled ok })
        (fun call ↦ call.status.unreturned) hget
      rw [← Lists.modify_eq_set (f := fun call ↦ { call with status := .settled ok }) hget,
        hcall] at hcount
      exact Nat.add_right_cancel hcount
    refine work_lt_of (rounds_eq rfl hunreturned) rfl ?_
    change (p.updateClient c f).load + _ + attemptsWork _ _ p.attempts < _
    omega
  | attempt a =>
    have hawaited : a ∈ cl.awaitedBy := List.mem_filterMap.mpr
      ⟨cmd, hqueue ▸ List.mem_cons_self, by rw [Command.attempt?, hissuer]⟩
    obtain ⟨attempt, point, hget, hstage, hnone⟩ := h.one.command c cl hcl a hawaited
    refine work_lt_of (rounds_eq rfl (unreturned_eq rfl)) rfl ?_
    have hattempts : ((p.updateClient c f).settle (.attempt a) ok).attempts =
        p.attempts.set a { attempt with settled := some ok } := Lists.modify_eq_set hget
    have hsum := attemptsWork_set hget { attempt with settled := some ok } p.rounds
      p.reconnectTimer
    -- The settled attempt has no more work left than the waiting one.
    have hle : Attempt.work p.rounds p.reconnectTimer { attempt with settled := some ok } ≤
        attempt.work p.rounds p.reconnectTimer := by
      obtain ⟨stage, settled, initial⟩ := attempt
      obtain rfl : stage = .ensuring c point := hstage
      obtain rfl : settled = none := hnone
      cases ok with
      | true => cases point <;> exact le_rfl
      | false =>
        rw [h.timer_of_errored hget rfl hcl (hresponds rfl)]
        cases point <;> simp [Attempt.work]
    have hcalls : ((p.updateClient c f).settle (.attempt a) ok).unreturned = p.unreturned :=
      unreturned_eq rfl
    rw [hattempts, hcalls]
    change (p.updateClient c f).load + _ + _ < _
    omega

/-- A call returns; if it is rolled back, the loop may have one more record to visit. -/
theorem work_resumeCall {id : ℕ} {call : Call} {ok : Bool} (hget : p.calls[id]? = some call)
    (hstatus : call.status = .settled ok) {q : PostgresService} (hclients : q.clients = p.clients)
    (hcalls : q.calls = p.calls) (hattempts : q.attempts = p.attempts)
    (htimer : q.reconnectTimer = p.reconnectTimer)
    (hcounts : q.roomSubscriptionCounts.entries.length ≤
      p.roomSubscriptionCounts.entries.length + 1) (ok' : Bool) :
    (q.setCall id { call with status := .returned ok' }).work < p.work := by
  have hunreturned : (q.setCall id { call with status := .returned ok' }).unreturned + 1 =
      p.unreturned := by
    have hcount := Lists.countP_set_add (b := { call with status := .returned ok' })
      (fun call ↦ call.status.unreturned) hget
    rw [hstatus] at hcount
    change (q.calls.set id _).countP _ + 1 = _
    rw [hcalls]
    exact hcount
  have hrounds : (q.setCall id { call with status := .returned ok' }).rounds ≤ p.rounds := by
    rw [rounds, rounds]
    change q.roomSubscriptionCounts.entries.length + _ ≤ _
    omega
  have hload : (q.setCall id { call with status := .returned ok' }).load = p.load :=
    load_of_clients_eq hclients
  have hwork := attemptsWork_mono hrounds (fun h : p.reconnectTimer = true ↦ h) p.attempts
  have htimers : (if p.reconnectTimer then
      2 * (q.setCall id { call with status := .returned ok' }).rounds + 9 else 0) ≤
      if p.reconnectTimer then 2 * p.rounds + 9 else 0 := by
    split <;> omega
  rw [work, work]
  change _ + _ + (if q.reconnectTimer then _ else 0) + attemptsWork _ q.reconnectTimer q.attempts <
    _
  rw [htimer, hattempts]
  omega

/-- The timer fires when nothing is under way. -/
theorem Running.work_reconnect (h : Running p) (hfails : p.FailsFast .reconnectTimerFires)
    (hset : p.reconnectTimer = true) :
    ({ p with reconnectTimer := false }.doReconnect).work < p.work := by
  have hnone : ∀ timer, attemptsWork p.rounds timer p.attempts = 0 := by
    refine fun timer ↦ List.sum_eq_zero_iff.mpr fun n hn ↦ ?_
    obtain ⟨attempt, hmem, rfl⟩ := List.mem_map.mp hn
    obtain ⟨a, hget⟩ := List.mem_iff_getElem?.mp hmem
    refine Attempt.work_of_not_underWay (Bool.eq_false_of_not_eq_true fun hway ↦ ?_) _ _
    obtain ⟨c, cl, hc, hcl, herrored⟩ := h.one.timer hset a attempt hget hway
    rw [hfails attempt hmem c hc cl hcl] at herrored
    cases herrored
  have hload : (p.updateClient p.listenClient fun cl ↦
      { cl with wired := false, ended := true }).load = p.load := load_keep fun _ ↦ rfl
  have hlive : ¬ p.destroyed = true := by
    rw [h.live]
    nofun
  rw [doReconnect, if_neg hlive, work, work, hset, hnone]
  change (p.updateClient p.listenClient _).load + p.unreturned + 0 +
    attemptsWork p.rounds false (p.attempts ++ [⟨.ending, none, false⟩]) < _
  rw [attemptsWork, List.map_append, List.sum_append]
  have hold := hnone false
  rw [attemptsWork] at hold
  rw [hold, hload, if_pos rfl]
  change _ + (0 + (2 * p.rounds + 8)) < _
  omega

/-- An attempt fails; if the error that made it fail has not armed the timer, it does. -/
theorem work_failAttempt {a : ℕ} {attempt : Attempt} (hget : p.attempts[a]? = some attempt)
    (hsettled : attempt.settled = some false) (hway : attempt.stage.underWay = true)
    (hinitial : attempt.initial = false) (hlive : p.destroyed = false) :
    (p.failAttempt a attempt).work < p.work := by
  have hsum := attemptsWork_set hget { attempt with stage := .failed, settled := none }
    p.rounds p.reconnectTimer
  have hfailed : attempt.work p.rounds p.reconnectTimer =
      if p.reconnectTimer then 1 else 2 * p.rounds + 10 := by
    obtain ⟨stage, settled, initial⟩ := attempt
    obtain rfl : settled = some false := hsettled
    cases stage <;> first | rfl | cases hway
  rw [hfailed] at hsum
  change _ = _ + 0 at hsum
  rw [failAttempt, if_neg (hinitial ▸ Bool.false_ne_true), scheduleReconnect]
  split
  · rename_i hor
    have hset : p.reconnectTimer = true := (Bool.or_eq_true_iff.mp hor).resolve_left
      fun hdestroyed ↦ by
        rw [show p.destroyed = true from hdestroyed] at hlive
        cases hlive
    rw [hset, if_pos rfl] at hsum
    refine work_lt_of rfl rfl ?_
    change p.load + p.unreturned + attemptsWork _ _ (p.attempts.set a _) < _
    rw [hset]
    omega
  · rename_i hnot
    have hunset : p.reconnectTimer = false := by
      refine Bool.eq_false_of_not_eq_true fun hset ↦ hnot (Bool.or_eq_true_iff.mpr (Or.inr hset))
    rw [hunset, if_neg Bool.false_ne_true] at hsum
    have hmono : attemptsWork p.rounds true
        (p.attempts.set a { attempt with stage := .failed, settled := none }) ≤
          attemptsWork p.rounds false
            (p.attempts.set a { attempt with stage := .failed, settled := none }) :=
      attemptsWork_mono le_rfl (absurd · Bool.false_ne_true) _
    rw [work, work, hunset]
    change p.load + p.unreturned + (2 * p.rounds + 9) +
      attemptsWork p.rounds true (p.attempts.set a _) < p.load + p.unreturned + 0 + _
    omega

/-- **Step lemma.** Every response lowers the work. -/
theorem Running.work_lt (h : Running p) {e : PgEvent} (he : p.Responds e)
    (hstep : p.step e = some p') : p'.work < p.work := by
  cases e with
  | subscribe R => exact he.elim
  | unsubscribe R => exact he.elim
  | clientError c => exact he.elim
  | notify note => exact he.elim
  | destroy => exact he.elim
  | execCommand c ok =>
    simp only [PostgresService.step, Option.bind_eq_bind, Option.bind_eq_some_iff] at hstep
    obtain ⟨cl, hcl, -, -, hstep⟩ := hstep
    split at hstep
    · cases hstep
    · rename_i cmd rest hqueue
      cases hstep
      exact h.work_execCommand hcl hqueue (fun hok ↦ he hok cl hcl) ⟨rfl, rfl⟩
  | resumeCall id =>
    simp only [PostgresService.step, Option.bind_eq_bind, Option.bind_eq_some_iff] at hstep
    obtain ⟨call, hget, hstep⟩ := hstep
    split at hstep
    · rename_i hstatus
      cases hstep
      exact work_resumeCall hget hstatus rfl rfl rfl rfl (Nat.le_succ _) true
    · rename_i hstatus
      cases hstep
      refine work_resumeCall (q := p.rollback call.kind) hget hstatus (clients_rollback _)
        (by cases call.kind <;> rfl) (by cases call.kind <;> rfl) (by cases call.kind <;> rfl) ?_
        false
      -- A rolled back UNLISTEN puts the room back, which makes a later round longer by one.
      cases call.kind with
      | subscribe R => exact (List.length_map _).le.trans (Nat.le_succ _)
      | unsubscribe R =>
        change (p.roomSubscriptionCounts.set R 1).entries.length ≤ _
        rw [EsMap.set]
        split
        · exact (List.length_map _).le.trans (Nat.le_succ _)
        · exact (List.length_append).le
    all_goals cases hstep
  | reconnectTimerFires =>
    rw [PostgresService.step] at hstep
    split at hstep
    · rename_i hset
      cases hstep
      exact h.work_reconnect he hset
    · cases hstep
  | endSettles a =>
    simp only [PostgresService.step, Option.bind_eq_bind, Option.bind_eq_some_iff,
      Option.guard_eq_some'] at hstep
    obtain ⟨attempt, hget, -, hending, hstep⟩ := hstep
    cases hstep
    have hsum := attemptsWork_set hget { attempt with stage := .connecting p.clients.length }
      p.rounds p.reconnectTimer
    refine work_lt_of rfl rfl ?_
    -- The new client has nothing to do yet.
    have hload : (p.installClient a attempt).load = p.load := by
      change ((p.clients ++ [({} : Client)]).map Client.load).sum = _
      rw [List.map_append, List.sum_append]
      rfl
    have hnone : attempt.settled = none := by
      by_contra hsettled
      obtain ⟨c, hc⟩ := h.one.settled a attempt hget hsettled
      rw [hending] at hc
      cases hc
    obtain ⟨stage, settled, initial⟩ := attempt
    obtain rfl : stage = .ending := hending
    obtain rfl : settled = none := hnone
    rw [hload]
    change _ + (2 * p.rounds + 8) = _ + (2 * p.rounds + 7) at hsum
    change p.load + p.unreturned + attemptsWork _ _ (p.attempts.set a _) < _
    omega
  | connectSettles a ok =>
    simp only [PostgresService.step, Option.bind_eq_bind, Option.bind_eq_some_iff] at hstep
    obtain ⟨attempt, hget, hstep⟩ := hstep
    split at hstep
    · rename_i c hstage hnone
      cases hstep
      have hsum := attemptsWork_set hget { attempt with settled := some ok } p.rounds
        p.reconnectTimer
      have hload : (p.updateClient c fun cl ↦ { cl with connected := ok }).load = p.load :=
        load_keep fun _ ↦ rfl
      have hlt : Attempt.work p.rounds p.reconnectTimer { attempt with settled := some ok } <
          attempt.work p.rounds p.reconnectTimer := by
        have hc : attempt.stage.client? = some c := by rw [hstage]; rfl
        obtain ⟨cl, hcl, -⟩ := h.upkeep.minded a attempt hget c hc
        -- A connection is refused only to a client that has failed.
        have hok := he attempt hget c hc cl hcl
        cases ok with
        | true => simp [Attempt.work, hstage, hnone]
        | false =>
          rw [h.timer_of_errored hget hc hcl (Or.inl (by simpa using hok))]
          simp [Attempt.work, hstage, hnone]
      refine work_lt_of rfl rfl ?_
      change (p.updateClient c _).load + p.unreturned + attemptsWork _ _ (p.attempts.set a _) < _
      omega
    · cases hstep
  | resumeAttempt a =>
    simp only [PostgresService.step, Option.bind_eq_bind, Option.bind_eq_some_iff] at hstep
    obtain ⟨attempt, hget, hstep⟩ := hstep
    split at hstep
    · rename_i hsettled
      obtain ⟨c, stage, hcont⟩ := continues_of_continueAttempt h.one hget hstep
      obtain ⟨-, hcalls, hcounts⟩ := clients_continueAttempt hstep
      obtain ⟨attempt', hattempts, hlt⟩ := work_continueAttempt hsettled hstep
        (show _ ≤ p.rounds from Nat.le_add_right _ _) p.reconnectTimer
      have hsum := attemptsWork_set hget attempt' p.rounds p.reconnectTimer
      refine work_lt_of (rounds_eq hcounts (unreturned_eq hcalls)) hcont.timer ?_
      rw [hattempts, unreturned_eq hcalls]
      omega
    · rename_i hsettled
      cases hstep
      obtain ⟨c, hc⟩ := h.one.settled a attempt hget (hsettled ▸ Option.some_ne_none _)
      have hway := AttemptStage.underWay_of_client? hc
      refine work_failAttempt hget hsettled hway (Bool.eq_false_of_not_eq_true fun hinitial ↦ ?_)
        h.live
      rw [h.upkeep.initial a attempt hget hinitial] at hway
      cases hway
    · cases hstep
  | deliver c =>
    simp only [PostgresService.step, Option.bind_eq_bind, Option.bind_eq_some_iff,
      Option.guard_eq_some'] at hstep
    obtain ⟨cl, hcl, -, hinbox, hstep⟩ := hstep
    cases hstep
    have hsum := load_updateClient hcl fun cl ↦ { cl with inbox := cl.inbox.tail }
    have hpos := List.length_pos_iff.mpr hinbox
    simp only [Client.load, List.length_tail] at hsum
    refine work_lt_of rfl rfl ?_
    change (p.updateClient c _).load + p.unreturned + attemptsWork _ _ p.attempts < _
    omega

/-! ## At rest -/

/-- The service is back: the current client is connected and keeps its handlers, nothing waits on
any client, no attempt is under way, and every call has returned. -/
structure Recovered (p : PostgresService) : Prop where
  client : ∃ cl, p.clients[p.listenClient]? = some cl ∧ cl.wired = true ∧ cl.alive = true
  idle : ∀ cl ∈ p.clients, cl.queue = [] ∧ cl.inbox = []
  attempts : ∀ attempt ∈ p.attempts, attempt.stage.underWay = false
  timer : p.reconnectTimer = false
  calls : ∀ call ∈ p.calls, ∃ ok, call.status = .returned ok

/-- A command waits on a client that is not current, or that has failed: it can be rejected. On the
current client it can be executed once the client has connected. -/
theorem Running.exists_execCommand (h : Running p) {c : ℕ} {cl : Client}
    (hcl : p.clients[c]? = some cl) (hqueue : cl.queue ≠ [])
    (hconnected : c = p.listenClient → cl.connected = true) : ∃ e q, p.Responds e ∧
      p.step e = some q := by
  obtain ⟨cmd, rest, hcmd⟩ := List.exists_cons_of_ne_nil hqueue
  have hexec : ∀ ok, (ok = true → cl.alive = true) →
      ∃ q, p.step (.execCommand c ok) = some q := by
    intro ok halive
    simp only [PostgresService.step, Option.bind_eq_bind, hcl, Option.bind_some, guard,
      if_pos halive, hcmd]
    exact ⟨_, rfl⟩
  by_cases hfailed : cl.errored = true ∨ cl.ended = true
  · obtain ⟨q, hq⟩ := hexec false (by rintro ⟨⟩)
    refine ⟨.execCommand c false, q, fun _ cl' hcl' ↦ ?_, hq⟩
    obtain rfl : cl = cl' := Option.some.inj (hcl.symm.trans hcl')
    exact hfailed
  · rw [not_or, Bool.not_eq_true, Bool.not_eq_true] at hfailed
    have hcurrent : c = p.listenClient := by
      by_contra hne
      have hended := h.upkeep.replaced c cl hcl hne
      rw [hfailed.2] at hended
      cases hended
    obtain ⟨q, hq⟩ := hexec true fun _ ↦
      alive_iff.mpr ⟨hconnected hcurrent, hfailed.1, hfailed.2⟩
    exact ⟨.execCommand c true, q, by rintro ⟨⟩, hq⟩

/-- While an attempt is under way, something is left to happen. -/
theorem Running.exists_of_underWay (h : Running p) {a : ℕ} {attempt : Attempt}
    (hget : p.attempts[a]? = some attempt) (hway : attempt.stage.underWay = true) :
    ∃ e q, p.Responds e ∧ p.step e = some q := by
  cases hsettled : attempt.settled with
  | some ok =>
    -- A settled attempt continues.
    obtain ⟨c, hc⟩ := h.one.settled a attempt hget (by rw [hsettled]; nofun)
    have hstep : ∃ q, p.step (.resumeAttempt a) = some q := by
      rw [PostgresService.step, hget, Option.bind_eq_bind, Option.bind_some]
      simp only [hsettled]
      cases ok with
      | false => exact ⟨_, rfl⟩
      | true =>
        obtain ⟨stage, settled, initial⟩ := attempt
        cases stage with
        | connecting c' => exact ⟨_, rfl⟩
        | ensuring c' point => cases point <;> exact ⟨_, rfl⟩
        | ending => cases hc
        | finished c' => cases hc
        | failed => cases hc
    obtain ⟨q, hq⟩ := hstep
    exact ⟨.resumeAttempt a, q, trivial, hq⟩
  | none =>
    cases hstage : attempt.stage with
    | ending =>
      refine ⟨.endSettles a, _, trivial, Option.bind_eq_some_iff.mpr ⟨attempt, hget,
        Option.bind_eq_some_iff.mpr ⟨(), (Option.guard_eq_some' ()).mpr hstage, rfl⟩⟩⟩
    | connecting c =>
      -- Its connection is accepted or refused.
      obtain ⟨cl, hcl, -⟩ := h.upkeep.minded a attempt hget c (by rw [hstage]; rfl)
      have hstep : ∃ q, p.step (.connectSettles a (!cl.errored)) = some q := by
        rw [PostgresService.step, hget, Option.bind_eq_bind, Option.bind_some]
        simp only [hstage, hsettled]
        exact ⟨_, rfl⟩
      obtain ⟨q, hq⟩ := hstep
      refine ⟨_, q, ?_, hq⟩
      intro attempt' hget' c' hc' cl' hcl'
      obtain rfl : attempt = attempt' := Option.some.inj (hget.symm.trans hget')
      rw [hstage] at hc'
      obtain rfl : c = c' := Option.some.inj hc'
      obtain rfl : cl = cl' := Option.some.inj (hcl.symm.trans hcl')
      rfl
    | ensuring c point =>
      -- It awaits a LISTEN, which is the first or waits behind others in the queue.
      obtain ⟨i, cl, hcl, hmem⟩ := h.awaited.queued (.attempt a)
        ⟨attempt, hget, hsettled, c, point, hstage⟩
      refine h.exists_execCommand hcl (fun hnil ↦ by rw [hnil] at hmem; cases hmem) fun hi ↦ ?_
      have hc : attempt.stage.client? = some c := by rw [hstage]; rfl
      obtain ⟨cl', hcl', hconnected⟩ := h.upkeep.connected a attempt hget
        (Or.inr ⟨c, point, hstage⟩) c hc
      rw [h.one.current a attempt hget c hc, ← hi] at hcl'
      obtain rfl : cl = cl' := Option.some.inj (hcl.symm.trans hcl')
      exact hconnected
    | finished c => rw [hstage] at hway; cases hway
    | failed => rw [hstage] at hway; cases hway

/-- A service at rest is back. -/
theorem Running.recovered_of_resting (h : Running p)
    (hrest : Resting PostgresService.step Responds p) : Recovered p := by
  -- Each conclusion is what keeps one kind of response from being possible.
  have hnone : ¬ ∃ e q, p.Responds e ∧ p.step e = some q := fun ⟨e, q, he, hq⟩ ↦ hrest e q he hq
  have hover : ∀ attempt ∈ p.attempts, attempt.stage.underWay = false := by
    intro attempt hmem
    obtain ⟨a, hget⟩ := List.mem_iff_getElem?.mp hmem
    exact Bool.eq_false_of_not_eq_true fun hway ↦ hnone (h.exists_of_underWay hget hway)
  have hunset : p.reconnectTimer = false := by
    refine Bool.eq_false_of_not_eq_true fun hset ↦ hnone ⟨.reconnectTimerFires, _, ?_, if_pos hset⟩
    intro attempt hmem c hc
    have hway := AttemptStage.underWay_of_client? hc
    rw [hover attempt hmem] at hway
    cases hway
  -- No timer and no attempt is left to bring a connection, so there is one.
  obtain ⟨hminded, hconnected⟩ : p.Minded p.listenClient ∧ p.HasConnected p.listenClient := by
    rcases h.upkeep.idle with hset | ⟨attempt, hmem, hway⟩ | hidle
    · rw [hunset] at hset
      cases hset
    · rw [hover attempt hmem] at hway
      cases hway
    · exact hidle
  obtain ⟨cl, hcl, hwired, hended, herrored⟩ := hminded
  obtain ⟨cl', hcl', hconnected⟩ := hconnected
  obtain rfl : cl = cl' := Option.some.inj (hcl.symm.trans hcl')
  have hsound : cl.errored = false := by
    refine Bool.eq_false_of_not_eq_true fun hfailed ↦ ?_
    have hset := herrored hfailed
    rw [hunset] at hset
    cases hset
  -- A queued command of a connected client would be answered.
  have hqueues : ∀ (c : ℕ) (cl : Client), p.clients[c]? = some cl → cl.queue = [] := by
    intro c cl₀ hcl₀
    by_contra hqueue
    refine hnone (h.exists_execCommand hcl₀ hqueue fun hc ↦ ?_)
    rw [hc] at hcl₀
    obtain rfl : cl = cl₀ := Option.some.inj (hcl.symm.trans hcl₀)
    exact hconnected
  refine ⟨⟨cl, hcl, hwired, alive_iff.mpr ⟨hconnected, hsound, hended⟩⟩, fun cl₀ hmem ↦ ?_, hover,
    hunset, fun call hmem ↦ ?_⟩
  · obtain ⟨c, hcl₀⟩ := List.mem_iff_getElem?.mp hmem
    refine ⟨hqueues c cl₀ hcl₀, ?_⟩
    by_contra hinbox
    exact hnone ⟨.deliver c, _, trivial, Option.bind_eq_some_iff.mpr ⟨cl₀, hcl₀,
      Option.bind_eq_some_iff.mpr ⟨(), (Option.guard_eq_some' ()).mpr hinbox, rfl⟩⟩⟩
  · obtain ⟨id, hget⟩ := List.mem_iff_getElem?.mp hmem
    cases hstatus : call.status with
    | returned ok => exact ⟨ok, rfl⟩
    -- Whoever awaits a command has one in a queue.
    | waiting =>
      obtain ⟨c, cl₀, hcl₀, hmem₀⟩ := h.awaited.queued (.call id)
        (Option.map_eq_some_iff.mpr ⟨call, hget, hstatus⟩)
      rw [hqueues c cl₀ hcl₀] at hmem₀
      cases hmem₀
    | settled ok =>
      have hstep : ∃ q, p.step (.resumeCall id) = some q := by
        rw [PostgresService.step, hget, Option.bind_eq_bind, Option.bind_some]
        simp only [hstatus]
        cases ok <;> exact ⟨_, rfl⟩
      obtain ⟨q, hq⟩ := hstep
      exact absurd ⟨.resumeCall id, q, trivial, hq⟩ hnone

/-- **The service recovers by itself.** From whatever state a service that is not destroyed has been
brought to, only finitely many responses are possible, one after the other, and when none is left
the service is connected, nothing is queued and every call has returned. -/
theorem recovered_of_responses {nodeId : JsString} {es : List PgEvent}
    (hguard : Guarded step FailsFast (ready nodeId) es) (hrun : run step (ready nodeId) es = some p)
    (hlive : p.destroyed = false) :
    (∀ fs q, Guarded step Responds p fs → run step p fs = some q →
      fs.length ≤ p.work ∧ (Resting step Responds q → Recovered q)) ∧
    ∃ fs q, Guarded step Responds p fs ∧ run step p fs = some q ∧ Recovered q := by
  have hrunning := running_of_run hguard hrun hlive
  have hstep : ∀ {p e p'}, Running p → p.Responds e → p.step e = some p' →
      Running p' ∧ p'.work < p.work := fun h he hstep ↦ ⟨h.step he hstep, h.work_lt he hstep⟩
  have hkeeps : ∀ {fs q}, Guarded step Responds p fs → run step p fs = some q → Running q :=
    fun hfs hq ↦ guarded_invariant Running (fun h he hstep ↦ h.step he hstep) hrunning hfs hq
  refine ⟨fun fs q hfs hq ↦ ⟨?_, fun hrest ↦ ?_⟩, ?_⟩
  · exact length_le_of_lowers Running work hstep hrunning hfs hq
  · exact (hkeeps hfs hq).recovered_of_resting hrest
  · obtain ⟨fs, q, hfs, hq, hrest⟩ := exists_run_resting Running work hstep hrunning
    exact ⟨fs, q, hfs, hq, (hkeeps hfs hq).recovered_of_resting hrest⟩

/-- A room is subscribed, and the client fails before the LISTEN is executed; the service
reconnects, and fails again while the new client connects. -/
theorem recovered_of_responses_twiceFailed :
    ∃ p, run step (ready []) [.subscribe [0x61], .clientError 0, .reconnectTimerFires,
        .endSettles 1, .clientError 1] = some p ∧
      ∃ fs q, Guarded step Responds p fs ∧ run step p fs = some q ∧ Recovered q := by
  refine exists_run_of_any (fun p : PostgresService ↦ p.destroyed = false) (by decide) ?_
  exact fun p hrun hlive ↦ (recovered_of_responses (by decide) hrun hlive).2

end PostgresService

end PostgresChat
