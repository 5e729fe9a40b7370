import PostgresChat.Lib.Lists
import PostgresChat.Postgres.Listen

/-!
# One wired client

Reconnecting replaces the client: `doReconnect` detaches the handlers of the old one, waits for it
to end, and attaches them to a new one. A second run of `doReconnect` that starts while the first
one is under way could leave two clients wired, and then the node would handle every notification
twice.

Nothing in the service keeps two runs apart but the driver: a client that fails rejects what is
pending on it at once, and the timer that starts the next run waits for a second at least. So a run
that is under way when its client fails has come to its end before the timer fires. `FailsFast` is
this assumption. Under it there is one run at a time (`OneWired.alone`), and the only client with
handlers is the current one.
-/

namespace PostgresChat

open Execution

/-- The client an attempt works on. -/
def AttemptStage.client? : AttemptStage → Option ℕ
  | .connecting c | .ensuring c _ => some c
  | .ending | .finished _ | .failed => none

/-- The attempt is under way. -/
def AttemptStage.underWay : AttemptStage → Bool
  | .ending | .connecting _ | .ensuring _ _ => true
  | .finished _ | .failed => false

/-- The attempt that awaits the command. -/
def Command.attempt? (cmd : Command) : Option ℕ :=
  match cmd.issuer with
  | .attempt a => some a
  | .call _ => none

/-- The attempts that await a command of the client. -/
def Client.awaitedBy (cl : Client) : List ℕ := cl.queue.filterMap Command.attempt?

theorem AttemptStage.underWay_of_client? {stage : AttemptStage} {c : ℕ}
    (h : stage.client? = some c) : stage.underWay = true := by
  cases stage <;> first | rfl | cases h

namespace PostgresService

/-- When the reconnect timer fires, no attempt still works on a client that has emitted an error. -/
def FailsFast (p : PostgresService) : PgEvent → Prop
  | .reconnectTimerFires => ∀ attempt ∈ p.attempts, ∀ c ∈ attempt.stage.client?,
      ∀ cl ∈ p.clients[c]?, cl.errored = false
  | _ => True

instance (p : PostgresService) : (e : PgEvent) → Decidable (p.FailsFast e)
  | .reconnectTimerFires => inferInstanceAs (Decidable (∀ attempt ∈ p.attempts,
      ∀ c ∈ attempt.stage.client?, ∀ cl ∈ p.clients[c]?, cl.errored = false))
  | .subscribe _ | .unsubscribe _ | .execCommand .. | .resumeCall _ | .clientError _ | .endSettles _
  | .connectSettles .. | .resumeAttempt _ | .notify _ | .deliver _ | .destroy => isTrue trivial

/-! ## The invariant -/

/-- At most one attempt is under way, it works on the current client, and no other client is
wired. -/
structure OneWired (p : PostgresService) : Prop where
  /-- An attempt whose command is waiting is about to settle by it. -/
  command : ∀ (c : ℕ) (cl : Client), p.clients[c]? = some cl → ∀ a ∈ cl.awaitedBy,
    ∃ (attempt : Attempt) (point : EnsurePoint), p.attempts[a]? = some attempt ∧
      attempt.stage = .ensuring c point ∧ attempt.settled = none
  once : ∀ (c : ℕ) (cl : Client), p.clients[c]? = some cl → cl.awaitedBy.Nodup
  settled : ∀ (a : ℕ) (attempt : Attempt), p.attempts[a]? = some attempt → attempt.settled ≠ none →
    ∃ c, attempt.stage.client? = some c
  alone : ∀ (a a' : ℕ) (attempt attempt' : Attempt), p.attempts[a]? = some attempt →
    p.attempts[a']? = some attempt' → attempt.stage.underWay = true →
    attempt'.stage.underWay = true → a = a'
  current : ∀ (a : ℕ) (attempt : Attempt), p.attempts[a]? = some attempt →
    ∀ c, attempt.stage.client? = some c → c = p.listenClient
  wired : ∀ (c : ℕ) (cl : Client), p.clients[c]? = some cl → cl.wired = true → c = p.listenClient
  /-- While the old client ends, no client is wired. -/
  ending : ∀ (a : ℕ) (attempt : Attempt), p.attempts[a]? = some attempt → attempt.stage = .ending →
    ∀ (c : ℕ) (cl : Client), p.clients[c]? = some cl → cl.wired = false
  /-- An attempt that is under way while the timer runs works on a client that has failed. -/
  timer : p.reconnectTimer = true → ∀ (a : ℕ) (attempt : Attempt), p.attempts[a]? = some attempt →
    attempt.stage.underWay = true →
    ∃ c cl, attempt.stage.client? = some c ∧ p.clients[c]? = some cl ∧ cl.errored = true

variable {p p' : PostgresService}

theorem oneWired_ready (nodeId : JsString) : OneWired (ready nodeId) := by
  have hclient : ∀ (c : ℕ) (cl : Client), (ready nodeId).clients[c]? = some cl →
      c = 0 ∧ cl.awaitedBy = [] := by
    intro c cl hget
    obtain ⟨hlt, rfl⟩ := List.getElem?_eq_some_iff.mp hget
    obtain rfl : c = 0 := Nat.lt_one_iff.mp hlt
    exact ⟨rfl, rfl⟩
  have hattempt : ∀ (a : ℕ) (attempt : Attempt), (ready nodeId).attempts[a]? = some attempt →
      attempt = ⟨.finished 0, none, true⟩ := fun a attempt hget ↦
    List.mem_singleton.mp (List.mem_of_getElem? hget)
  refine ⟨fun c cl hget a ha ↦ ?_, fun c cl hget ↦ ?_, fun a attempt hget h ↦ ?_,
    fun a a' attempt attempt' hget _ h ↦ ?_, fun a attempt hget c h ↦ ?_,
    fun c cl hget _ ↦ (hclient c cl hget).1, fun a attempt hget h ↦ ?_, fun h ↦ ?_⟩
  · rw [(hclient c cl hget).2] at ha
    cases ha
  · rw [(hclient c cl hget).2]
    exact List.nodup_nil
  · rw [hattempt a attempt hget] at h
    exact absurd rfl h
  · rw [hattempt a attempt hget] at h
    cases h
  · rw [hattempt a attempt hget] at h
    cases h
  · rw [hattempt a attempt hget] at h
    cases h
  · cases h

/-- What an attempt under way does not change about a client: no handlers are attached to it, an
error is not forgotten, and no further attempt awaits it. -/
structure Follows (cl cl' : Client) : Prop where
  wired : cl'.wired = true → cl.wired = true
  errored : cl.errored = true → cl'.errored = true
  awaitedBy : List.Sublist cl'.awaitedBy cl.awaitedBy

theorem Follows.refl (cl : Client) : Follows cl cl := ⟨id, id, List.Sublist.refl _⟩

/-- Every client follows the one that was at its place. -/
def ClientsFollow (p p' : PostgresService) : Prop :=
  ∀ c : ℕ, Option.Rel Follows p.clients[c]? p'.clients[c]?

theorem ClientsFollow.of_eq (h : p'.clients = p.clients) : ClientsFollow p p' := by
  intro c
  rw [h]
  cases p.clients[c]? with
  | none => exact .none
  | some cl => exact .some (Follows.refl cl)

theorem clientsFollow_updateClient {c : ℕ} {f : Client → Client}
    (hf : ∀ cl, p.clients[c]? = some cl → Follows cl (f cl)) :
    ClientsFollow p (p.updateClient c f) := by
  intro i
  rw [getElem?_updateClient]
  split
  · rename_i hc
    subst hc
    cases hget : p.clients[c]? with
    | none => exact .none
    | some cl => exact .some (hf cl hget)
  · exact ClientsFollow.of_eq rfl i

theorem ClientsFollow.back (h : ClientsFollow p p') {c : ℕ} {cl' : Client}
    (hget : p'.clients[c]? = some cl') : ∃ cl, p.clients[c]? = some cl ∧ Follows cl cl' := by
  have hc := h c
  rw [hget] at hc
  generalize p.clients[c]? = o at hc
  cases hc with
  | some hf => exact ⟨_, rfl, hf⟩

theorem ClientsFollow.forth (h : ClientsFollow p p') {c : ℕ} {cl : Client}
    (hget : p.clients[c]? = some cl) : ∃ cl', p'.clients[c]? = some cl' ∧ Follows cl cl' := by
  have hc := h c
  rw [hget] at hc
  generalize p'.clients[c]? = o at hc
  cases hc with
  | some hf => exact ⟨_, rfl, hf⟩

/-- Clients change while nothing happens to attempts. -/
theorem OneWired.follow (h : OneWired p) (hattempts : p'.attempts = p.attempts)
    (hclient : p'.listenClient = p.listenClient)
    (htimer : p'.reconnectTimer = true → p.reconnectTimer = true) (hfollow : ClientsFollow p p') :
    OneWired p' := by
  refine ⟨fun c cl' hget a ha ↦ ?_, fun c cl' hget ↦ ?_, ?_, ?_, ?_, fun c cl' hget hwired ↦ ?_,
    fun a attempt ha hstage c cl' hget ↦ ?_, fun hset a attempt ha hway ↦ ?_⟩
  · obtain ⟨cl, hold, hf⟩ := hfollow.back hget
    rw [hattempts]
    exact h.command c cl hold a (hf.awaitedBy.subset ha)
  · obtain ⟨cl, hold, hf⟩ := hfollow.back hget
    exact (h.once c cl hold).sublist hf.awaitedBy
  · rw [hattempts]
    exact h.settled
  · rw [hattempts]
    exact h.alone
  · rw [hattempts, hclient]
    exact h.current
  · obtain ⟨cl, hold, hf⟩ := hfollow.back hget
    rw [hclient]
    exact h.wired c cl hold (hf.wired hwired)
  · obtain ⟨cl, hold, hf⟩ := hfollow.back hget
    rw [hattempts] at ha
    have hunwired := h.ending a attempt ha hstage c cl hold
    by_contra hwired
    rw [hf.wired (Bool.eq_true_of_not_eq_false hwired)] at hunwired
    cases hunwired
  · rw [hattempts] at ha
    obtain ⟨c, cl, hc, hold, herrored⟩ := h.timer (htimer hset) a attempt ha hway
    obtain ⟨cl', hget, hf⟩ := hfollow.forth hold
    exact ⟨c, cl', hc, hget, hf.errored herrored⟩

/-- What the one attempt under way becomes. -/
structure Becomes (p p' : PostgresService) (a : ℕ) (attempt : Attempt) : Prop where
  attempts : p'.attempts = p.attempts.set a attempt
  command : ∀ (c : ℕ) (cl' : Client), p'.clients[c]? = some cl' →
    cl'.awaitedBy.Nodup ∧ ∀ a' ∈ cl'.awaitedBy,
    (a' = a ∧ attempt.settled = none ∧ ∃ point, attempt.stage = .ensuring c point) ∨
      a' ≠ a ∧ ∃ cl, p.clients[c]? = some cl ∧ a' ∈ cl.awaitedBy
  settled : attempt.settled ≠ none → ∃ c, attempt.stage.client? = some c
  current : ∀ c, attempt.stage.client? = some c → c = p'.listenClient
  notEnding : attempt.stage ≠ .ending
  wired : ∀ (c : ℕ) (cl' : Client), p'.clients[c]? = some cl' → cl'.wired = true →
    c = p'.listenClient
  timer : p'.reconnectTimer = true → ∀ c, attempt.stage.client? = some c →
    ∃ cl, p'.clients[c]? = some cl ∧ cl.errored = true

/-- The one attempt under way continues; the others have ended. -/
theorem OneWired.become (h : OneWired p) {a : ℕ} {attempt attempt' : Attempt}
    (hget : p.attempts[a]? = some attempt) (hway : attempt.stage.underWay = true)
    (hbecomes : Becomes p p' a attempt') : OneWired p' := by
  have hattempt : ∀ (a' : ℕ) (attempt'' : Attempt), p'.attempts[a']? = some attempt'' →
      (a' = a ∧ attempt'' = attempt') ∨ a' ≠ a ∧ p.attempts[a']? = some attempt'' := by
    intro a' attempt'' hget'
    rw [hbecomes.attempts, List.getElem?_set] at hget'
    split at hget'
    · rename_i heq
      split at hget'
      · exact Or.inl ⟨heq.symm, (Option.some.inj hget').symm⟩
      · cases hget'
    · rename_i hne
      exact Or.inr ⟨fun heq ↦ hne heq.symm, hget'⟩
  have hself : p'.attempts[a]? = some attempt' := by
    rw [hbecomes.attempts, List.getElem?_set_self (List.getElem?_eq_some_iff.mp hget).1]
  have hended : ∀ (a' : ℕ) (attempt'' : Attempt), a' ≠ a → p.attempts[a']? = some attempt'' →
      ¬ attempt''.stage.underWay = true := fun a' attempt'' hne hget' hway' ↦
    hne (h.alone a' a attempt'' attempt hget' hget hway' hway)
  refine ⟨fun c cl' hcl a' ha' ↦ ?_, fun c cl' hcl ↦ (hbecomes.command c cl' hcl).1,
    fun a' attempt'' hget' hsettled ↦ ?_, fun a₁ a₂ attempt₁ attempt₂ h₁ h₂ hw₁ hw₂ ↦ ?_,
    fun a' attempt'' hget' c hc ↦ ?_, hbecomes.wired, fun a' attempt'' hget' hstage ↦ ?_,
    fun htimer a' attempt'' hget' hway' ↦ ?_⟩
  · rcases (hbecomes.command c cl' hcl).2 a' ha' with
      ⟨rfl, hnone, point, hstage⟩ | ⟨hne, cl, hold, hmem⟩
    · exact ⟨attempt', point, hself, hstage, hnone⟩
    · obtain ⟨attempt'', point, hget', hstage, hnone⟩ := h.command c cl hold a' hmem
      refine ⟨attempt'', point, ?_, hstage, hnone⟩
      rw [hbecomes.attempts, List.getElem?_set_ne (Ne.symm hne), hget']
  · rcases hattempt a' attempt'' hget' with ⟨-, rfl⟩ | ⟨-, hget'⟩
    · exact hbecomes.settled hsettled
    · exact h.settled a' attempt'' hget' hsettled
  · rcases hattempt a₁ attempt₁ h₁ with ⟨rfl, -⟩ | ⟨hne, h₁⟩
    · rcases hattempt a₂ attempt₂ h₂ with ⟨rfl, -⟩ | ⟨hne, h₂⟩
      · rfl
      · exact absurd hw₂ (hended a₂ attempt₂ hne h₂)
    · exact absurd hw₁ (hended a₁ attempt₁ hne h₁)
  · rcases hattempt a' attempt'' hget' with ⟨-, rfl⟩ | ⟨hne, hget'⟩
    · exact hbecomes.current c hc
    · exact absurd (AttemptStage.underWay_of_client? hc) (hended a' attempt'' hne hget')
  · rcases hattempt a' attempt'' hget' with ⟨-, rfl⟩ | ⟨hne, hget'⟩
    · exact absurd hstage hbecomes.notEnding
    · refine absurd ?_ (hended a' attempt'' hne hget')
      rw [hstage]
      rfl
  · rcases hattempt a' attempt'' hget' with ⟨-, rfl⟩ | ⟨hne, hget'⟩
    · cases hstage : attempt''.stage with
      | connecting c =>
        obtain ⟨cl, hcl, herrored⟩ := hbecomes.timer htimer c (by rw [hstage]; rfl)
        exact ⟨c, cl, rfl, hcl, herrored⟩
      | ensuring c point =>
        obtain ⟨cl, hcl, herrored⟩ := hbecomes.timer htimer c (by rw [hstage]; rfl)
        exact ⟨c, cl, rfl, hcl, herrored⟩
      | ending => exact absurd hstage hbecomes.notEnding
      | finished c =>
        rw [hstage] at hway'
        cases hway'
      | failed =>
        rw [hstage] at hway'
        cases hway'
    · exact absurd hway' (hended a' attempt'' hne hget')

/-! ## Steps -/

/-- A command of a call. -/
theorem follows_query {cl : Client} {cmd : Command} (hcmd : cmd.attempt? = none) :
    Follows cl { cl with queue := cl.queue ++ [cmd] } := by
  refine ⟨id, id, ?_⟩
  rw [Client.awaitedBy, List.filterMap_append, List.filterMap_cons_none hcmd, List.filterMap_nil,
    List.append_nil]
  exact List.Sublist.refl _

theorem OneWired.clientQuery (h : OneWired p) {c : ℕ} {cmd : Command}
    (hcmd : cmd.attempt? = none) : OneWired (p.clientQuery c cmd) :=
  h.follow rfl rfl id (clientsFollow_updateClient fun _ _ ↦ follows_query hcmd)

/-- Counts, calls and the backoff have no part in the invariant. -/
theorem OneWired.of_eq (h : OneWired p) (hclients : p'.clients = p.clients)
    (hattempts : p'.attempts = p.attempts) (hclient : p'.listenClient = p.listenClient)
    (htimer : p'.reconnectTimer = true → p.reconnectTimer = true) : OneWired p' :=
  h.follow hattempts hclient htimer (ClientsFollow.of_eq hclients)

theorem OneWired.subscribe (h : OneWired p) (R : RoomId) :
    OneWired (p.subscribeToRoomChannel R) := by
  rw [subscribeToRoomChannel]
  split
  · have hcounted : OneWired (p.setRoomCount R (p.roomCount R + 1)) := h.of_eq rfl rfl rfl id
    exact (hcounted.clientQuery rfl).of_eq rfl rfl rfl id
  · exact h.of_eq rfl rfl rfl id

theorem OneWired.unsubscribe (h : OneWired p) (R : RoomId) :
    OneWired (p.unsubscribeFromRoomChannel R) := by
  rw [unsubscribeFromRoomChannel]
  split
  · exact h.of_eq rfl rfl rfl id
  · split
    · exact h.of_eq rfl rfl rfl id
    · have hcounted : OneWired (p.deleteRoomCount R) := h.of_eq rfl rfl rfl id
      exact (hcounted.clientQuery rfl).of_eq rfl rfl rfl id

/-- The timer is set when whatever is under way works on a client that has failed. -/
theorem OneWired.scheduleReconnect (h : OneWired p)
    (hfailed : ∀ (a : ℕ) (attempt : Attempt), p.attempts[a]? = some attempt →
      attempt.stage.underWay = true → ∃ (c : ℕ) (cl : Client), attempt.stage.client? = some c ∧
        p.clients[c]? = some cl ∧ cl.errored = true) : OneWired p.scheduleReconnect := by
  rw [PostgresService.scheduleReconnect]
  split
  · exact h
  · exact ⟨h.command, h.once, h.settled, h.alone, h.current, h.wired, h.ending, fun _ ↦ hfailed⟩

/-- Who awaits a command is told by its stage. -/
theorem OneWired.not_awaitedBy (h : OneWired p) {a : ℕ} {attempt : Attempt}
    (hget : p.attempts[a]? = some attempt)
    (hstage : attempt.settled ≠ none ∨ ∀ c point, attempt.stage ≠ .ensuring c point) {c : ℕ}
    {cl : Client} (hcl : p.clients[c]? = some cl) : a ∉ cl.awaitedBy := by
  intro hmem
  obtain ⟨attempt', point, hget', hensuring, hnone⟩ := h.command c cl hcl a hmem
  obtain rfl : attempt = attempt' := Option.some.inj (hget.symm.trans hget')
  rcases hstage with hsettled | hstage
  · exact hsettled hnone
  · exact hstage c point hensuring

/-- An attempt that awaits no command continues on the current client without issuing one. -/
theorem OneWired.become_idle (h : OneWired p) {a : ℕ} {attempt attempt' : Attempt}
    (hget : p.attempts[a]? = some attempt) (hway : attempt.stage.underWay = true)
    (hidle : attempt.settled ≠ none ∨ ∀ c point, attempt.stage ≠ .ensuring c point)
    (hattempts : p'.attempts = p.attempts.set a attempt') (hfollow : ClientsFollow p p')
    (hclient : p'.listenClient = p.listenClient)
    (hsettled : attempt'.settled ≠ none → ∃ c, attempt'.stage.client? = some c)
    (hnotEnding : attempt'.stage ≠ .ending)
    (hstage : ∀ c, attempt'.stage.client? = some c → attempt.stage.client? = some c ∧
      (p'.reconnectTimer = true → p.reconnectTimer = true)) : OneWired p' := by
  refine h.become hget hway ⟨hattempts, fun c cl' hcl' ↦ ?_, hsettled, fun c hc ↦ ?_, hnotEnding,
    fun c cl' hcl' hwired ↦ ?_, fun htimer c hc ↦ ?_⟩
  · obtain ⟨cl, hcl, hf⟩ := hfollow.back hcl'
    refine ⟨(h.once c cl hcl).sublist hf.awaitedBy, fun a' ha' ↦ Or.inr ⟨?_, cl, hcl, ?_⟩⟩
    · rintro rfl
      exact h.not_awaitedBy hget hidle hcl (hf.awaitedBy.subset ha')
    · exact hf.awaitedBy.subset ha'
  · rw [hclient]
    exact h.current a attempt hget c (hstage c hc).1
  · obtain ⟨cl, hcl, hf⟩ := hfollow.back hcl'
    rw [hclient]
    exact h.wired c cl hcl (hf.wired hwired)
  · obtain ⟨c', cl, hc', hcl, herrored⟩ := h.timer ((hstage c hc).2 htimer) a attempt hget hway
    obtain rfl : c = c' := Option.some.inj ((hstage c hc).1.symm.trans hc')
    obtain ⟨cl', hcl', hf⟩ := hfollow.forth hcl
    exact ⟨cl', hcl', hf.errored herrored⟩

/-- An attempt whose command has settled issues the next one on the current client. -/
theorem OneWired.issue (h : OneWired p) {a : ℕ} {attempt : Attempt}
    (hget : p.attempts[a]? = some attempt) (hsettled : attempt.settled ≠ none) {verb : Verb}
    {channel : Channel} {point : EnsurePoint} {c : ℕ} (hc : attempt.stage.client? = some c) :
    OneWired ((p.clientQuery c ⟨verb, channel, .attempt a⟩).setAttempt a
      { attempt with stage := .ensuring c point, settled := none }) := by
  have hway := AttemptStage.underWay_of_client? hc
  have hcurrent := h.current a attempt hget c hc
  have hclients : ∀ (i : ℕ) (cl' : Client),
      (p.clientQuery c ⟨verb, channel, .attempt a⟩).clients[i]? = some cl' →
      ∃ cl, p.clients[i]? = some cl ∧ cl'.wired = cl.wired ∧ cl'.errored = cl.errored ∧
        (cl'.awaitedBy = cl.awaitedBy ∨ i = c ∧ cl'.awaitedBy = cl.awaitedBy ++ [a]) := by
    intro i cl' hcl'
    rw [PostgresService.clientQuery, getElem?_updateClient] at hcl'
    split at hcl'
    · rename_i hi
      obtain ⟨cl, hcl, rfl⟩ := Option.map_eq_some_iff.mp hcl'
      refine ⟨cl, hcl, rfl, rfl, Or.inr ⟨hi.symm, ?_⟩⟩
      exact List.filterMap_append
    · exact ⟨cl', hcl', rfl, rfl, Or.inl rfl⟩
  refine h.become hget hway ⟨rfl, fun i cl' hcl' ↦ ?_, fun hne ↦ absurd rfl hne, ?_, nofun,
    fun i cl' hcl' hwired ↦ ?_, fun htimer i hi ↦ ?_⟩
  · obtain ⟨cl, hcl, -, -, hawaited⟩ := hclients i cl' hcl'
    have hfree := h.not_awaitedBy hget (Or.inl hsettled) hcl
    have hold : ∀ a' ∈ cl.awaitedBy, a' ≠ a ∧ ∃ cl, p.clients[i]? = some cl ∧ a' ∈ cl.awaitedBy :=
      fun a' ha' ↦ ⟨fun heq ↦ hfree (heq ▸ ha'), cl, hcl, ha'⟩
    rcases hawaited with hsame | ⟨rfl, hmore⟩
    · rw [hsame]
      exact ⟨h.once i cl hcl, fun a' ha' ↦ Or.inr (hold a' ha')⟩
    · rw [hmore]
      refine ⟨?_, fun a' ha' ↦ ?_⟩
      · rw [List.nodup_append']
        refine ⟨h.once i cl hcl, List.nodup_singleton a, fun a' ha' ha ↦ hfree ?_⟩
        rwa [← List.mem_singleton.mp ha]
      · rcases List.mem_append.mp ha' with ha' | ha'
        · exact Or.inr (hold a' ha')
        · exact Or.inl ⟨List.mem_singleton.mp ha', rfl, point, rfl⟩
  · rintro _ ⟨⟩
    exact hcurrent
  · obtain ⟨cl, hcl, hwired', -⟩ := hclients i cl' hcl'
    exact h.wired i cl hcl (hwired' ▸ hwired)
  · cases hi
    obtain ⟨c', cl, hc', hcl, herrored⟩ := h.timer htimer a attempt hget hway
    obtain rfl : c = c' := Option.some.inj (hc.symm.trans hc')
    refine ⟨{ cl with queue := cl.queue ++ [⟨verb, channel, .attempt a⟩] }, ?_, herrored⟩
    change (p.updateClient c _).clients[c]? = _
    rw [getElem?_updateClient, if_pos rfl, hcl]
    rfl

theorem OneWired.visitRooms (h : OneWired p) {a : ℕ} {attempt : Attempt}
    (hget : p.attempts[a]? = some attempt) (hsettled : attempt.settled ≠ none) {c : ℕ}
    (hc : attempt.stage.client? = some c) (i : ℕ) : OneWired (p.visitRooms a attempt c i) := by
  rw [PostgresService.visitRooms]
  split
  · exact h.issue hget hsettled hc
  · exact h.become_idle hget (AttemptStage.underWay_of_client? hc) (Or.inl hsettled) rfl
      (ClientsFollow.of_eq rfl) rfl (fun hne ↦ absurd rfl hne) nofun nofun

/-- An attempt continues after a promise that was fulfilled. -/
theorem OneWired.continueAttempt (h : OneWired p) {a : ℕ} {attempt : Attempt}
    (hget : p.attempts[a]? = some attempt) (hsettled : attempt.settled ≠ none)
    (hstep : p.continueAttempt a attempt = some p') : OneWired p' := by
  obtain ⟨c, hc⟩ := h.settled a attempt hget hsettled
  obtain ⟨stage, settled, initial⟩ := attempt
  cases stage with
  | connecting c' =>
    obtain rfl : c' = p.listenClient := h.current a _ hget c' rfl
    cases hstep
    exact h.issue hget hsettled rfl
  | ensuring c' point =>
    cases point with
    | presence =>
      cases hstep
      exact h.issue hget hsettled rfl
    | typing =>
      cases hstep
      exact h.visitRooms hget hsettled rfl 0
    | room i =>
      cases hstep
      exact h.visitRooms hget hsettled rfl i
  | ending => cases hc
  | finished c' => cases hc
  | failed => cases hc

/-- An attempt fails, and tries again later. -/
theorem OneWired.failAttempt (h : OneWired p) {a : ℕ} {attempt : Attempt}
    (hget : p.attempts[a]? = some attempt) (hsettled : attempt.settled ≠ none) :
    OneWired (p.failAttempt a attempt) := by
  obtain ⟨c, hc⟩ := h.settled a attempt hget hsettled
  have hway := AttemptStage.underWay_of_client? hc
  have hfailed : OneWired (p.setAttempt a { attempt with stage := .failed, settled := none }) :=
    h.become_idle hget hway (Or.inl hsettled) rfl (ClientsFollow.of_eq rfl) rfl
      (fun hne ↦ absurd rfl hne) nofun nofun
  rw [PostgresService.failAttempt]
  split
  · exact hfailed
  · refine hfailed.scheduleReconnect fun a' attempt' hget' hway' ↦ ?_
    change (p.attempts.set a _)[a']? = some attempt' at hget'
    rw [List.getElem?_set] at hget'
    split at hget'
    · split at hget'
      · cases hget'
        cases hway'
      · cases hget'
    · rename_i hne
      exact absurd (h.alone a a' attempt attempt' hget hget' hway hway') hne

/-- A command settles. -/
theorem OneWired.execCommand (h : OneWired p) {c : ℕ} {cl : Client} {cmd : Command}
    {rest : List Command} (hcl : p.clients[c]? = some cl) (hqueue : cl.queue = cmd :: rest)
    {f : Client → Client} (hf : (f cl).queue = rest ∧ (f cl).wired = cl.wired ∧
      (f cl).errored = cl.errored) (ok : Bool) :
    OneWired ((p.updateClient c f).settle cmd.issuer ok) := by
  have hfollows : Follows cl (f cl) := by
    refine ⟨fun hw ↦ hf.2.1 ▸ hw, fun he ↦ hf.2.2.trans he, ?_⟩
    rw [Client.awaitedBy, Client.awaitedBy, hf.1, hqueue]
    exact (List.sublist_cons_self cmd rest).filterMap _
  have hfollow : ClientsFollow p (p.updateClient c f) := by
    refine clientsFollow_updateClient fun cl' hcl' ↦ ?_
    obtain rfl : cl = cl' := Option.some.inj (hcl.symm.trans hcl')
    exact hfollows
  cases hissuer : cmd.issuer with
  | call i => exact h.follow rfl rfl id hfollow
  | attempt a =>
    have hawaited : cl.awaitedBy = a :: (f cl).awaitedBy := by
      rw [Client.awaitedBy, Client.awaitedBy, hf.1, hqueue,
        List.filterMap_cons_some (show cmd.attempt? = some a by rw [Command.attempt?, hissuer])]
    obtain ⟨attempt, point, hget, hstage, hnone⟩ := h.command c cl hcl a (by
      rw [hawaited]
      exact List.mem_cons_self)
    have hclient : attempt.stage.client? = some c := by rw [hstage]; rfl
    refine h.become hget (AttemptStage.underWay_of_client? hclient) ⟨Lists.modify_eq_set hget,
        fun i cl' hcl' ↦ ?_, fun _ ↦ ⟨c, hclient⟩, fun i hi ↦ h.current a attempt hget i hi, ?_,
        fun i cl' hcl' hwired ↦ ?_, fun htimer i hi ↦ ?_⟩
    · obtain ⟨cl₀, hcl₀, hf₀⟩ := hfollow.back hcl'
      refine ⟨(h.once i cl₀ hcl₀).sublist hf₀.awaitedBy, fun a' ha' ↦ Or.inr ⟨?_, cl₀, hcl₀,
        hf₀.awaitedBy.subset ha'⟩⟩
      -- The command that has settled was the only one of its attempt.
      rintro rfl
      obtain ⟨attempt', point', hget', hstage', -⟩ :=
        h.command i cl₀ hcl₀ a' (hf₀.awaitedBy.subset ha')
      obtain rfl : attempt = attempt' := Option.some.inj (hget.symm.trans hget')
      obtain ⟨rfl, -⟩ := AttemptStage.ensuring.inj (hstage.symm.trans hstage')
      obtain rfl : cl = cl₀ := Option.some.inj (hcl.symm.trans hcl₀)
      change (p.updateClient c f).clients[c]? = some cl' at hcl'
      rw [getElem?_updateClient, if_pos rfl, hcl, Option.map_some, Option.some.injEq] at hcl'
      subst hcl'
      have honce := h.once c cl hcl
      rw [hawaited] at honce
      exact (List.nodup_cons.mp honce).1 ha'
    · change attempt.stage ≠ .ending
      rw [hstage]
      nofun
    · obtain ⟨cl₀, hcl₀, hf₀⟩ := hfollow.back hcl'
      exact h.wired i cl₀ hcl₀ (hf₀.wired hwired)
    · obtain ⟨c', cl₀, hc', hcl₀, herrored⟩ :=
        h.timer htimer a attempt hget (AttemptStage.underWay_of_client? hclient)
      obtain rfl : i = c' := Option.some.inj (hi.symm.trans hc')
      obtain ⟨cl', hcl', hf'⟩ := hfollow.forth hcl₀
      exact ⟨cl', hcl', hf'.errored herrored⟩

/-- The timer fires: nothing is under way, and the old client is let go. -/
theorem OneWired.reconnect (h : OneWired p) (hfails : p.FailsFast .reconnectTimerFires)
    (hset : p.reconnectTimer = true) :
    OneWired { p with reconnectTimer := false }.doReconnect := by
  have hended : ∀ (a : ℕ) (attempt : Attempt), p.attempts[a]? = some attempt →
      ¬ attempt.stage.underWay = true := by
    intro a attempt hget hway
    obtain ⟨c, cl, hc, hcl, herrored⟩ := h.timer hset a attempt hget hway
    rw [hfails attempt (List.mem_of_getElem? hget) c hc cl hcl] at herrored
    cases herrored
  rw [doReconnect]
  split
  · exact h.of_eq rfl rfl rfl nofun
  · have hunwired : ∀ (c : ℕ) (cl' : Client), (p.updateClient p.listenClient fun cl ↦
        { cl with wired := false, ended := true }).clients[c]? = some cl' →
        cl'.wired = false ∧ ∃ cl, p.clients[c]? = some cl ∧ cl'.awaitedBy = cl.awaitedBy := by
      intro c cl' hget
      rw [getElem?_updateClient] at hget
      split at hget
      · obtain ⟨cl, hcl, rfl⟩ := Option.map_eq_some_iff.mp hget
        exact ⟨rfl, cl, hcl, rfl⟩
      · rename_i hne
        refine ⟨?_, cl', hget, rfl⟩
        by_contra hwired
        exact hne (h.wired c cl' hget (Bool.eq_true_of_not_eq_false hwired)).symm
    have hattempt : ∀ (a : ℕ) (attempt : Attempt),
        (p.attempts ++ [⟨.ending, none, false⟩])[a]? = some attempt →
        (p.attempts[a]? = some attempt ∧ attempt.stage.underWay = false) ∨
          a = p.attempts.length ∧ attempt = ⟨.ending, none, false⟩ := by
      intro a attempt hget
      rw [List.getElem?_append] at hget
      split at hget
      · exact Or.inl ⟨hget, Bool.eq_false_of_not_eq_true (hended a attempt hget)⟩
      · obtain ⟨hlt, heq⟩ := List.getElem?_eq_some_iff.mp hget
        have hzero : a - p.attempts.length = 0 := Nat.lt_one_iff.mp hlt
        refine Or.inr ⟨by omega, ?_⟩
        rw [← heq]
        exact List.mem_singleton.mp (List.getElem_mem _)
    refine ⟨fun c cl' hget a ha ↦ ?_, fun c cl' hget ↦ ?_, fun a attempt hget hsettled ↦ ?_,
      fun a a' attempt attempt' hget hget' hway hway' ↦ ?_, fun a attempt hget c hc ↦ ?_,
      fun c cl' hget hwired ↦ ?_, fun a attempt _ _ c cl' hget ↦ (hunwired c cl' hget).1, nofun⟩
    · obtain ⟨-, cl, hcl, hawaited⟩ := hunwired c cl' hget
      obtain ⟨attempt, point, hattempt, hstage⟩ := h.command c cl hcl a (hawaited ▸ ha)
      refine ⟨attempt, point, ?_, hstage⟩
      exact (List.getElem?_append_left (List.getElem?_eq_some_iff.mp hattempt).1).trans hattempt
    · obtain ⟨-, cl, hcl, hawaited⟩ := hunwired c cl' hget
      rw [hawaited]
      exact h.once c cl hcl
    · rcases hattempt a attempt hget with ⟨hget, -⟩ | ⟨-, rfl⟩
      · exact h.settled a attempt hget hsettled
      · exact absurd rfl hsettled
    · rcases hattempt a attempt hget with ⟨-, hover⟩ | ⟨rfl, -⟩
      · rw [hway] at hover
        cases hover
      · rcases hattempt a' attempt' hget' with ⟨-, hover⟩ | ⟨rfl, -⟩
        · rw [hway'] at hover
          cases hover
        · rfl
    · rcases hattempt a attempt hget with ⟨hget, -⟩ | ⟨-, rfl⟩
      · exact h.current a attempt hget c hc
      · cases hc
    · rw [(hunwired c cl' hget).1] at hwired
      cases hwired

/-- The old client has ended, and a new one takes its place. -/
theorem OneWired.installClient (h : OneWired p) {a : ℕ} {attempt : Attempt}
    (hget : p.attempts[a]? = some attempt) (hstage : attempt.stage = .ending) :
    OneWired (p.installClient a attempt) := by
  have hway : attempt.stage.underWay = true := by rw [hstage]; rfl
  have hnone : attempt.settled = none := by
    by_contra hsettled
    obtain ⟨c, hc⟩ := h.settled a attempt hget hsettled
    rw [hstage] at hc
    cases hc
  have hclients : ∀ (c : ℕ) (cl' : Client), (p.clients ++ [({} : Client)])[c]? = some cl' →
      p.clients[c]? = some cl' ∨ c = p.clients.length ∧ cl' = {} := by
    intro c cl' hcl'
    rw [List.getElem?_append] at hcl'
    split at hcl'
    · exact Or.inl hcl'
    · obtain ⟨hlt, heq⟩ := List.getElem?_eq_some_iff.mp hcl'
      have hzero : c - p.clients.length = 0 := Nat.lt_one_iff.mp hlt
      refine Or.inr ⟨by omega, ?_⟩
      rw [← heq]
      exact List.mem_singleton.mp (List.getElem_mem _)
  refine h.become hget hway ⟨rfl, fun c cl' hcl' ↦ ?_, fun hsettled ↦ absurd hnone hsettled, ?_,
    nofun, fun c cl' hcl' hwired ↦ ?_, fun hset ↦ ?_⟩
  · rcases hclients c cl' hcl' with hcl | ⟨-, rfl⟩
    · refine ⟨h.once c cl' hcl, fun a' ha' ↦ Or.inr ⟨?_, cl', hcl, ha'⟩⟩
      rintro rfl
      refine h.not_awaitedBy hget (Or.inr fun c point ↦ ?_) hcl ha'
      rw [hstage]
      nofun
    · exact ⟨List.nodup_nil, nofun⟩
  · rintro _ ⟨⟩
    rfl
  · rcases hclients c cl' hcl' with hcl | ⟨rfl, -⟩
    · rw [h.ending a attempt hget hstage c cl' hcl] at hwired
      cases hwired
    · rfl
  · obtain ⟨c, -, hc, -⟩ := h.timer hset a attempt hget hway
    rw [hstage] at hc
    cases hc

/-- **Step lemma.** -/
theorem OneWired.step (h : OneWired p) {e : PgEvent} (he : p.FailsFast e)
    (hstep : p.step e = some p') : OneWired p' := by
  cases e with
  | subscribe R =>
    cases hstep
    exact h.subscribe R
  | unsubscribe R =>
    cases hstep
    exact h.unsubscribe R
  | execCommand c ok =>
    simp only [PostgresService.step, Option.bind_eq_bind, Option.bind_eq_some_iff] at hstep
    obtain ⟨cl, hcl, -, -, hstep⟩ := hstep
    split at hstep
    · cases hstep
    · rename_i cmd rest hqueue
      cases hstep
      exact h.execCommand hcl hqueue ⟨rfl, rfl, rfl⟩ ok
  | resumeCall i =>
    simp only [PostgresService.step, Option.bind_eq_bind, Option.bind_eq_some_iff] at hstep
    obtain ⟨call, -, hstep⟩ := hstep
    split at hstep
    · cases hstep
      exact h.of_eq rfl rfl rfl id
    · cases hstep
      cases call.kind <;> exact h.of_eq rfl rfl rfl id
    all_goals cases hstep
  | clientError c =>
    simp only [PostgresService.step, Option.bind_eq_bind, Option.bind_eq_some_iff,
      Option.guard_eq_some'] at hstep
    obtain ⟨cl, hcl, -, hwired, hstep⟩ := hstep
    cases hstep
    have hfollow : OneWired (p.updateClient c fun cl ↦ { cl with errored := true }) :=
      h.follow rfl rfl id
        (clientsFollow_updateClient fun _ _ ↦ ⟨id, fun _ ↦ rfl, List.Sublist.refl _⟩)
    refine hfollow.scheduleReconnect fun a attempt hget hway ↦ ?_
    -- What is under way works on the current client, which is the one that has failed.
    cases hstage : attempt.stage.client? with
    | none =>
      have hending : attempt.stage = .ending := by
        cases hs : attempt.stage with
        | ending => rfl
        | connecting c' => rw [hs] at hstage; cases hstage
        | ensuring c' point => rw [hs] at hstage; cases hstage
        | finished c' => rw [hs] at hway; cases hway
        | failed => rw [hs] at hway; cases hway
      rw [h.ending a attempt hget hending c cl hcl] at hwired
      cases hwired
    | some c' =>
      obtain rfl : c = c' :=
        (h.wired c cl hcl hwired).trans (h.current a attempt hget c' hstage).symm
      refine ⟨c, { cl with errored := true }, rfl, ?_, rfl⟩
      rw [getElem?_updateClient, if_pos rfl, hcl]
      rfl
  | reconnectTimerFires =>
    simp only [PostgresService.step] at hstep
    split at hstep
    · rename_i hset
      cases hstep
      exact h.reconnect he hset
    · cases hstep
  | endSettles a =>
    simp only [PostgresService.step, Option.bind_eq_bind, Option.bind_eq_some_iff,
      Option.guard_eq_some'] at hstep
    obtain ⟨attempt, hget, -, hstage, hstep⟩ := hstep
    cases hstep
    exact h.installClient hget hstage
  | connectSettles a ok =>
    simp only [PostgresService.step, Option.bind_eq_bind, Option.bind_eq_some_iff] at hstep
    obtain ⟨attempt, hget, hstep⟩ := hstep
    split at hstep
    · rename_i c hstage _
      cases hstep
      have hc : attempt.stage.client? = some c := by rw [hstage]; rfl
      refine h.become_idle hget (AttemptStage.underWay_of_client? hc)
        (Or.inr fun c' point ↦ by rw [hstage]; nofun) rfl
        ?_ rfl (fun _ ↦ ⟨c, hc⟩) (by rw [hstage]; nofun) fun c' hc' ↦ ⟨hc', id⟩
      exact clientsFollow_updateClient fun _ _ ↦ ⟨id, id, List.Sublist.refl _⟩
    · cases hstep
  | resumeAttempt a =>
    simp only [PostgresService.step, Option.bind_eq_bind, Option.bind_eq_some_iff] at hstep
    obtain ⟨attempt, hget, hstep⟩ := hstep
    split at hstep
    · rename_i hsettled
      exact h.continueAttempt hget (by rw [hsettled]; nofun) hstep
    · rename_i hsettled
      cases hstep
      exact h.failAttempt hget (by rw [hsettled]; nofun)
    · cases hstep
  | notify note =>
    cases hstep
    refine h.follow rfl rfl id fun c ↦ ?_
    rw [PostgresService.notify, List.getElem?_map]
    cases p.clients[c]? with
    | none => exact .none
    | some cl =>
      refine .some ?_
      dsimp only
      split <;> exact ⟨id, id, List.Sublist.refl _⟩
  | deliver c =>
    simp only [PostgresService.step, Option.bind_eq_bind, Option.bind_eq_some_iff] at hstep
    obtain ⟨cl, -, -, -, hstep⟩ := hstep
    cases hstep
    exact h.follow rfl rfl id
      (clientsFollow_updateClient fun _ _ ↦ ⟨id, id, List.Sublist.refl _⟩)
  | destroy =>
    cases hstep
    exact h.follow rfl rfl nofun
      (clientsFollow_updateClient fun _ _ ↦ ⟨id, id, List.Sublist.refl _⟩)

end PostgresService

end PostgresChat
