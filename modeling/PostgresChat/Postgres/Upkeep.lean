import PostgresChat.Postgres.Shutdown
import PostgresChat.Postgres.Undisturbed

/-!
# A connection, or a way to one

After an error the service is without a LISTEN connection until `doReconnect` has come to its end,
and `doReconnect` may fail in its turn. What keeps the service going is that something is always
left to happen: the timer is armed, or a run of `doReconnect` is under way, or the current client is
connected and will announce its own failure. `Upkeep` states this of every reachable state. It rests
on `OneWired`, which says that the run under way works on the current client, and it needs to know
of this client that its handlers are attached, that nobody has ended it, and that its failure has
armed the timer (`Minded`).
-/

namespace PostgresChat

open Execution

/-- What has become of a client: handlers, connection, error and end. -/
def Client.flags (cl : Client) : Bool × Bool × Bool × Bool :=
  (cl.wired, cl.connected, cl.errored, cl.ended)

/-- The client of the attempt has connected. -/
def Attempt.PastConnect (attempt : Attempt) : Prop :=
  attempt.settled = some true ∨ ∃ c point, attempt.stage = .ensuring c point

namespace PostgresService

/-- The service would learn of the end of client `c`: its handlers are attached, it has not been
ended, and if it has failed the timer is armed. -/
def Minded (p : PostgresService) (c : ℕ) : Prop :=
  ∃ cl, p.clients[c]? = some cl ∧ cl.wired = true ∧ cl.ended = false ∧
    (cl.errored = true → p.reconnectTimer = true)

def HasConnected (p : PostgresService) (c : ℕ) : Prop :=
  ∃ cl, p.clients[c]? = some cl ∧ cl.connected = true

/-- Something is left to happen, or the current client is connected. -/
structure Upkeep (p : PostgresService) : Prop where
  minded : ∀ (a : ℕ) (attempt : Attempt), p.attempts[a]? = some attempt →
    ∀ c, attempt.stage.client? = some c → p.Minded c
  connected : ∀ (a : ℕ) (attempt : Attempt), p.attempts[a]? = some attempt →
    attempt.PastConnect → ∀ c, attempt.stage.client? = some c → p.HasConnected c
  /-- `onModuleInit` has returned. -/
  initial : ∀ (a : ℕ) (attempt : Attempt), p.attempts[a]? = some attempt →
    attempt.initial = true → attempt.stage.underWay = false
  /-- A client that has been replaced was ended first. -/
  replaced : ∀ (c : ℕ) (cl : Client), p.clients[c]? = some cl → c ≠ p.listenClient →
    cl.ended = true
  ending : ∀ (a : ℕ) (attempt : Attempt), p.attempts[a]? = some attempt →
    attempt.stage = .ending → ∀ (c : ℕ) (cl : Client), p.clients[c]? = some cl → cl.ended = true
  idle : p.reconnectTimer = true ∨
    (∃ attempt ∈ p.attempts, attempt.stage.underWay = true) ∨
    p.Minded p.listenClient ∧ p.HasConnected p.listenClient

theorem upkeep_ready (nodeId : JsString) : Upkeep (ready nodeId) := by
  have hattempt : ∀ (a : ℕ) (attempt : Attempt), (ready nodeId).attempts[a]? = some attempt →
      attempt = ⟨.finished 0, none, true⟩ := fun a attempt hget ↦
    List.mem_singleton.mp (List.mem_of_getElem? hget)
  refine ⟨fun a attempt hget c hc ↦ ?_, fun a attempt hget _ c hc ↦ ?_,
    fun a attempt hget _ ↦ ?_, fun c cl hget hne ↦ ?_, fun a attempt hget hending ↦ ?_,
    Or.inr (Or.inr ⟨⟨_, rfl, rfl, rfl, nofun⟩, ⟨_, rfl, rfl⟩⟩)⟩
  · rw [hattempt a attempt hget] at hc
    cases hc
  · rw [hattempt a attempt hget] at hc
    cases hc
  · rw [hattempt a attempt hget]
    rfl
  · obtain ⟨hlt, -⟩ := List.getElem?_eq_some_iff.mp hget
    exact absurd (Nat.lt_one_iff.mp hlt) hne
  · rw [hattempt a attempt hget] at hending
    cases hending

variable {p p' : PostgresService}

/-! ## What does not touch a connection -/

/-- The clients are those of before, and nothing has become of them. -/
def KeepsFlags (p p' : PostgresService) : Prop :=
  ∀ c : ℕ, p'.clients[c]?.map Client.flags = p.clients[c]?.map Client.flags

theorem KeepsFlags.of_eq (h : p'.clients = p.clients) : KeepsFlags p p' := fun c ↦ by rw [h]

theorem keepsFlags_updateClient {c : ℕ} {f : Client → Client}
    (hf : ∀ cl, (f cl).flags = cl.flags) : KeepsFlags p (p.updateClient c f) := by
  intro i
  rw [getElem?_updateClient]
  split
  · rw [Option.map_map]
    exact congrArg (Option.map · _) (funext hf)
  · rfl

theorem KeepsFlags.forth (h : KeepsFlags p p') {c : ℕ} {cl : Client}
    (hget : p.clients[c]? = some cl) : ∃ cl', p'.clients[c]? = some cl' ∧ cl'.wired = cl.wired ∧
      cl'.connected = cl.connected ∧ cl'.errored = cl.errored ∧ cl'.ended = cl.ended := by
  have hflags := h c
  rw [hget, Option.map_some] at hflags
  obtain ⟨cl', hget', heq⟩ := Option.map_eq_some_iff.mp hflags
  rw [Client.flags, Client.flags, Prod.mk.injEq, Prod.mk.injEq, Prod.mk.injEq] at heq
  exact ⟨cl', hget', heq⟩

theorem KeepsFlags.symm (h : KeepsFlags p p') : KeepsFlags p' p := fun c ↦ (h c).symm

theorem Minded.keep {c : ℕ} (h : p.Minded c) (hflags : KeepsFlags p p')
    (htimer : p.reconnectTimer = true → p'.reconnectTimer = true) : p'.Minded c := by
  obtain ⟨cl, hget, hwired, hended, herrored⟩ := h
  obtain ⟨cl', hget', hw, -, he, hn⟩ := hflags.forth hget
  exact ⟨cl', hget', hw.trans hwired, hn.trans hended, fun hfailed ↦
    htimer (herrored (he.symm.trans hfailed))⟩

theorem HasConnected.keep {c : ℕ} (h : p.HasConnected c) (hflags : KeepsFlags p p') :
    p'.HasConnected c := by
  obtain ⟨cl, hget, hconnected⟩ := h
  obtain ⟨cl', hget', -, hc, -⟩ := hflags.forth hget
  exact ⟨cl', hget', hc.trans hconnected⟩

/-- The attempts are those of before, at the same stages; at most a command has settled. -/
def AttemptsWait (p p' : PostgresService) : Prop :=
  ∀ (a : ℕ) (attempt' : Attempt), p'.attempts[a]? = some attempt' →
    ∃ attempt, p.attempts[a]? = some attempt ∧ attempt'.stage = attempt.stage ∧
      attempt'.initial = attempt.initial ∧
      (attempt'.settled = attempt.settled ∨ ∃ c point, attempt.stage = .ensuring c point)

theorem AttemptsWait.of_eq (h : p'.attempts = p.attempts) : AttemptsWait p p' :=
  fun _ attempt hget ↦ ⟨attempt, h ▸ hget, rfl, rfl, Or.inl rfl⟩

/-- Besides the events of the loop, only commands have to do with attempts. -/
theorem frame_of_step (hone : OneWired p) {e : PgEvent} (he : ¬ Drives e)
    (hstep : p.step e = some p') : KeepsFlags p p' ∧ AttemptsWait p p' := by
  cases e with
  | subscribe R =>
    cases hstep
    rw [subscribeToRoomChannel]
    split
    · exact ⟨keepsFlags_updateClient (p := p.setRoomCount R _) fun _ ↦ rfl, .of_eq rfl⟩
    · exact ⟨.of_eq rfl, .of_eq rfl⟩
  | unsubscribe R =>
    cases hstep
    rw [unsubscribeFromRoomChannel]
    split
    · exact ⟨.of_eq rfl, .of_eq rfl⟩
    · split
      · exact ⟨.of_eq rfl, .of_eq rfl⟩
      · exact ⟨keepsFlags_updateClient (p := p.deleteRoomCount R) fun _ ↦ rfl, .of_eq rfl⟩
  | execCommand c ok =>
    simp only [step, Option.bind_eq_bind, Option.bind_eq_some_iff] at hstep
    obtain ⟨cl, hcl, -, -, hstep⟩ := hstep
    split at hstep
    · cases hstep
    · rename_i cmd rest hqueue
      cases hstep
      refine ⟨fun i ↦ ?_, ?_⟩
      · rw [clients_settle]
        exact (keepsFlags_updateClient (f := fun cl' ↦ { cl' with queue := rest, listening := _ })
          fun _ ↦ rfl) i
      · cases hissuer : cmd.issuer with
        | call id => exact .of_eq rfl
        | attempt a =>
          have hawaited : a ∈ cl.awaitedBy :=
            List.mem_filterMap.mpr ⟨cmd, hqueue ▸ List.mem_cons_self, by
              rw [Command.attempt?, hissuer]⟩
          obtain ⟨attempt, point, hget, hstage, -⟩ := hone.command c cl hcl a hawaited
          intro a' attempt' hget'
          change (p.attempts.modify a _)[a']? = _ at hget'
          rw [Lists.modify_eq_set hget] at hget'
          rcases Lists.of_getElem?_set hget' with ⟨-, hold⟩ | ⟨rfl, rfl⟩
          · exact ⟨attempt', hold, rfl, rfl, Or.inl rfl⟩
          · exact ⟨attempt, hget, rfl, rfl, Or.inr ⟨c, point, hstage⟩⟩
  | resumeCall id =>
    simp only [step, Option.bind_eq_bind, Option.bind_eq_some_iff] at hstep
    obtain ⟨call, -, hstep⟩ := hstep
    split at hstep
    · cases hstep
      exact ⟨.of_eq rfl, .of_eq rfl⟩
    · cases hstep
      cases call.kind <;> exact ⟨.of_eq rfl, .of_eq rfl⟩
    all_goals cases hstep
  | notify note =>
    cases hstep
    refine ⟨fun c ↦ ?_, .of_eq rfl⟩
    rw [PostgresService.notify, List.getElem?_map, Option.map_map]
    refine congrArg (Option.map · _) (funext fun cl ↦ ?_)
    rw [Function.comp_apply]
    split <;> rfl
  | deliver c =>
    simp only [step, Option.bind_eq_bind, Option.bind_eq_some_iff] at hstep
    obtain ⟨cl, -, -, -, hstep⟩ := hstep
    cases hstep
    exact ⟨keepsFlags_updateClient fun _ ↦ rfl, .of_eq rfl⟩
  | _ => exact absurd trivial he

/-! ## The loop -/

/-- The one attempt under way continues. -/
theorem Upkeep.become (h : Upkeep p) (hone : OneWired p) {a : ℕ} {attempt attempt' : Attempt}
    (hget : p.attempts[a]? = some attempt) (hway : attempt.stage.underWay = true)
    (hattempts : p'.attempts = p.attempts.set a attempt')
    (hinitial : attempt'.initial = attempt.initial) (hnotEnding : attempt'.stage ≠ .ending)
    (hminded : ∀ c, attempt'.stage.client? = some c →
      p'.Minded c ∧ (attempt'.PastConnect → p'.HasConnected c))
    (hreplaced : ∀ (c : ℕ) (cl : Client), p'.clients[c]? = some cl → c ≠ p'.listenClient →
      cl.ended = true)
    (hidle : p'.reconnectTimer = true ∨ attempt'.stage.underWay = true ∨
      p'.Minded p'.listenClient ∧ p'.HasConnected p'.listenClient) : Upkeep p' := by
  have hattempt : ∀ (a' : ℕ) (attempt'' : Attempt), p'.attempts[a']? = some attempt'' →
      attempt''.stage.underWay = false ∨ attempt'' = attempt' := by
    intro a' attempt'' hget'
    rw [hattempts] at hget'
    rcases Lists.of_getElem?_set hget' with ⟨hne, hold⟩ | ⟨-, rfl⟩
    · refine Or.inl (Bool.eq_false_of_not_eq_true fun hway' ↦ hne ?_)
      exact hone.alone a a' attempt attempt'' hget hold hway hway'
    · exact Or.inr rfl
  have hworking : ∀ (a' : ℕ) (attempt'' : Attempt), p'.attempts[a']? = some attempt'' →
      ∀ c, attempt''.stage.client? = some c → attempt'' = attempt' := by
    intro a' attempt'' hget' c hc
    refine (hattempt a' attempt'' hget').resolve_left fun hover ↦ ?_
    rw [AttemptStage.underWay_of_client? hc] at hover
    cases hover
  refine ⟨fun a' attempt'' hget' c hc ↦ ?_, fun a' attempt'' hget' hpast c hc ↦ ?_,
    fun a' attempt'' hget' hfirst ↦ ?_, hreplaced, fun a' attempt'' hget' hending ↦ ?_,
    hidle.imp_right (Or.imp_left fun hway' ↦ ⟨attempt', ?_, hway'⟩)⟩
  · obtain rfl := hworking a' attempt'' hget' c hc
    exact (hminded c hc).1
  · obtain rfl := hworking a' attempt'' hget' c hc
    exact (hminded c hc).2 hpast
  · rcases hattempt a' attempt'' hget' with hover | rfl
    · exact hover
    · rw [h.initial a attempt hget (hinitial.symm.trans hfirst)] at hway
      cases hway
  · rcases hattempt a' attempt'' hget' with hover | rfl
    · rw [hending] at hover
      cases hover
    · exact absurd hending hnotEnding
  · rw [hattempts]
    exact List.mem_set (List.getElem?_eq_some_iff.mp hget).1 attempt'

/-- What a fulfilled promise makes of an attempt: its next command, or its end. -/
structure Continues (p p' : PostgresService) (a : ℕ) (attempt : Attempt) (c : ℕ)
    (stage : AttemptStage) : Prop where
  client : attempt.stage.client? = some c
  current : c = p.listenClient
  reached : stage = .finished c ∨ ∃ point, stage = .ensuring c point
  attempts : p'.attempts = p.attempts.set a ⟨stage, none, attempt.initial⟩
  flags : KeepsFlags p p'
  listenClient : p'.listenClient = p.listenClient
  timer : p'.reconnectTimer = p.reconnectTimer

theorem continues_of_continueAttempt (hone : OneWired p) {a : ℕ} {attempt : Attempt}
    (hget : p.attempts[a]? = some attempt) (hstep : p.continueAttempt a attempt = some p') :
    ∃ c stage, Continues p p' a attempt c stage := by
  have hcurrent := hone.current a attempt hget
  have hvisit : ∀ c, attempt.stage.client? = some c → ∀ i,
      ∃ stage, Continues p (p.visitRooms a attempt c i) a attempt c stage := by
    intro c hc i
    rw [visitRooms]
    split
    · exact ⟨_, hc, hcurrent c hc, Or.inr ⟨_, rfl⟩, rfl, keepsFlags_updateClient fun _ ↦ rfl, rfl,
        rfl⟩
    · exact ⟨_, hc, hcurrent c hc, Or.inl rfl, rfl, .of_eq rfl, rfl, rfl⟩
  rw [continueAttempt.eq_def] at hstep
  split at hstep
  · rename_i c hstage
    cases hstep
    have hc : attempt.stage.client? = some c := by rw [hstage]; rfl
    obtain rfl := hcurrent c hc
    exact ⟨_, _, hc, rfl, Or.inr ⟨_, rfl⟩, rfl, keepsFlags_updateClient fun _ ↦ rfl, rfl, rfl⟩
  · rename_i c hstage
    cases hstep
    have hc : attempt.stage.client? = some c := by rw [hstage]; rfl
    exact ⟨_, _, hc, hcurrent c hc, Or.inr ⟨_, rfl⟩, rfl, keepsFlags_updateClient fun _ ↦ rfl, rfl,
      rfl⟩
  · rename_i c hstage
    cases hstep
    have hc : attempt.stage.client? = some c := by rw [hstage]; rfl
    exact ⟨c, hvisit c hc 0⟩
  · rename_i c i hstage
    cases hstep
    have hc : attempt.stage.client? = some c := by rw [hstage]; rfl
    exact ⟨c, hvisit c hc i⟩
  all_goals cases hstep

/-- An attempt continues after a promise that was fulfilled. -/
theorem Upkeep.continueAttempt (h : Upkeep p) (hone : OneWired p) {a : ℕ} {attempt : Attempt}
    (hget : p.attempts[a]? = some attempt) (hsettled : attempt.settled = some true)
    (hstep : p.continueAttempt a attempt = some p') : Upkeep p' := by
  obtain ⟨c, stage, hcont⟩ := continues_of_continueAttempt hone hget hstep
  have hminded : p'.Minded c :=
    (h.minded a attempt hget c hcont.client).keep hcont.flags hcont.timer.ge
  have hconnected : p'.HasConnected c :=
    (h.connected a attempt hget (Or.inl hsettled) c hcont.client).keep hcont.flags
  have hclient : c = p'.listenClient := hcont.current.trans hcont.listenClient.symm
  have hstage : stage ≠ .ending ∧ ∀ i, stage.client? = some i → i = c := by
    rcases hcont.reached with rfl | ⟨point, rfl⟩
    · exact ⟨nofun, nofun⟩
    · exact ⟨nofun, fun i hi ↦ (Option.some.inj hi).symm⟩
  refine h.become hone hget (AttemptStage.underWay_of_client? hcont.client) hcont.attempts rfl
    hstage.1 (fun i hi ↦ ?_) (fun i cl' hcl' hne ↦ ?_) ?_
  · obtain rfl := hstage.2 i hi
    exact ⟨hminded, fun _ ↦ hconnected⟩
  · obtain ⟨cl, hcl, -, -, -, hended⟩ := hcont.flags.symm.forth hcl'
    rw [← hended]
    exact h.replaced i cl hcl fun heq ↦ hne (heq.trans hcont.listenClient.symm)
  · rcases hcont.reached with rfl | ⟨point, rfl⟩
    · rw [← hclient]
      exact Or.inr (Or.inr ⟨hminded, hconnected⟩)
    · exact Or.inr (Or.inl rfl)

theorem attempts_scheduleReconnect : p.scheduleReconnect.attempts = p.attempts := by
  rw [scheduleReconnect]
  split <;> rfl

theorem listenClient_scheduleReconnect : p.scheduleReconnect.listenClient = p.listenClient := by
  rw [scheduleReconnect]
  split <;> rfl

theorem reconnectTimer_scheduleReconnect (h : p.destroyed = false) :
    p.scheduleReconnect.reconnectTimer = true := by
  rw [scheduleReconnect]
  split
  · rename_i hset
    exact (Bool.or_eq_true_iff.mp hset).resolve_left fun hdestroyed ↦ by
      rw [h] at hdestroyed
      cases hdestroyed
  · rfl

/-- An attempt that fails arms the timer. -/
theorem Upkeep.failAttempt (h : Upkeep p) (hone : OneWired p) (hlive : p.destroyed = false) {a : ℕ}
    {attempt : Attempt} (hget : p.attempts[a]? = some attempt) (hsettled : attempt.settled ≠ none) :
    Upkeep (p.failAttempt a attempt) := by
  obtain ⟨c, hc⟩ := hone.settled a attempt hget hsettled
  have hway := AttemptStage.underWay_of_client? hc
  have hfirst : ¬ attempt.initial = true := fun hinitial ↦ by
    rw [h.initial a attempt hget hinitial] at hway
    cases hway
  rw [PostgresService.failAttempt]
  split
  · rename_i hinitial
    exact absurd hinitial hfirst
  · refine h.become hone hget hway (attempts_scheduleReconnect.trans rfl) rfl (by rintro ⟨⟩)
      (by rintro _ ⟨⟩) (fun i cl hcl hne ↦ ?_) (Or.inl (reconnectTimer_scheduleReconnect hlive))
    rw [clients_scheduleReconnect] at hcl
    rw [listenClient_scheduleReconnect] at hne
    exact h.replaced i cl hcl hne

/-- A client fails, and the timer is armed. -/
theorem Upkeep.clientError (h : Upkeep p) (hlive : p.destroyed = false) (c : ℕ) :
    Upkeep (p.updateClient c fun cl ↦ { cl with errored := true }).scheduleReconnect := by
  have htimer := reconnectTimer_scheduleReconnect
    (p := p.updateClient c fun cl ↦ { cl with errored := true }) hlive
  have hclient : ∀ (i : ℕ) (cl : Client), p.clients[i]? = some cl → ∃ cl',
      (p.updateClient c fun cl ↦ { cl with errored := true }).scheduleReconnect.clients[i]? =
        some cl' ∧ cl'.wired = cl.wired ∧ cl'.connected = cl.connected ∧
        cl'.ended = cl.ended := by
    intro i cl hcl
    rw [clients_scheduleReconnect, getElem?_updateClient, hcl]
    split
    · exact ⟨_, rfl, rfl, rfl, rfl⟩
    · exact ⟨_, rfl, rfl, rfl, rfl⟩
  have hback : ∀ (i : ℕ) (cl' : Client),
      (p.updateClient c fun cl ↦ { cl with errored := true }).scheduleReconnect.clients[i]? =
        some cl' → ∃ cl, p.clients[i]? = some cl ∧ cl'.ended = cl.ended := by
    intro i cl' hcl'
    rw [clients_scheduleReconnect, getElem?_updateClient] at hcl'
    split at hcl'
    · obtain ⟨cl, hcl, rfl⟩ := Option.map_eq_some_iff.mp hcl'
      exact ⟨cl, hcl, rfl⟩
    · exact ⟨cl', hcl', rfl⟩
  refine ⟨fun a attempt hget i hi ↦ ?_, fun a attempt hget hpast i hi ↦ ?_,
    fun a attempt hget ↦ ?_, fun i cl' hcl' hne ↦ ?_,
    fun a attempt hget hending i cl' hcl' ↦ ?_, Or.inl htimer⟩
  · rw [attempts_scheduleReconnect] at hget
    obtain ⟨cl, hcl, hwired, hended, -⟩ := h.minded a attempt hget i hi
    obtain ⟨cl', hcl', hw, -, hn⟩ := hclient i cl hcl
    exact ⟨cl', hcl', hw.trans hwired, hn.trans hended, fun _ ↦ htimer⟩
  · rw [attempts_scheduleReconnect] at hget
    obtain ⟨cl, hcl, hconnected⟩ := h.connected a attempt hget hpast i hi
    obtain ⟨cl', hcl', -, hc, -⟩ := hclient i cl hcl
    exact ⟨cl', hcl', hc.trans hconnected⟩
  · rw [attempts_scheduleReconnect] at hget
    exact h.initial a attempt hget
  · obtain ⟨cl, hcl, hended⟩ := hback i cl' hcl'
    rw [listenClient_scheduleReconnect] at hne
    exact hended.trans (h.replaced i cl hcl hne)
  · rw [attempts_scheduleReconnect] at hget
    obtain ⟨cl, hcl, hended⟩ := hback i cl' hcl'
    exact hended.trans (h.ending a attempt hget hending i cl hcl)

/-- The timer fires, and the old client is let go. -/
theorem Upkeep.reconnect (h : Upkeep p) (hone : OneWired p) (hlive : p.destroyed = false)
    (hfails : p.FailsFast .reconnectTimerFires) (hset : p.reconnectTimer = true) :
    Upkeep { p with reconnectTimer := false }.doReconnect := by
  have hover : ∀ (a : ℕ) (attempt : Attempt), p.attempts[a]? = some attempt →
      attempt.stage.underWay = false := by
    intro a attempt hget
    refine Bool.eq_false_of_not_eq_true fun hway ↦ ?_
    obtain ⟨c, cl, hc, hcl, herrored⟩ := hone.timer hset a attempt hget hway
    rw [hfails attempt (List.mem_of_getElem? hget) c hc cl hcl] at herrored
    cases herrored
  rw [doReconnect, if_neg fun hdestroyed ↦ by
    rw [show p.destroyed = true from hdestroyed] at hlive
    cases hlive]
  have hattempt : ∀ (a : ℕ) (attempt : Attempt),
      (p.attempts ++ [⟨.ending, none, false⟩])[a]? = some attempt →
      attempt.stage.underWay = false ∨ attempt = ⟨.ending, none, false⟩ := by
    intro a attempt hget
    rcases Lists.getElem?_concat_eq_some.mp hget with hget | ⟨-, heq⟩
    · exact Or.inl (hover a attempt hget)
    · exact Or.inr heq
  have hended : ∀ (c : ℕ) (cl' : Client), (p.updateClient p.listenClient fun cl ↦
      { cl with wired := false, ended := true }).clients[c]? = some cl' → cl'.ended = true := by
    intro c cl' hget
    rw [getElem?_updateClient] at hget
    split at hget
    · obtain ⟨cl, -, rfl⟩ := Option.map_eq_some_iff.mp hget
      rfl
    · rename_i hne
      exact h.replaced c cl' hget fun heq ↦ hne heq.symm
  refine ⟨fun a attempt hget c hc ↦ ?_, fun a attempt hget _ c hc ↦ ?_,
    fun a attempt hget hinitial ↦ ?_, fun c cl hget _ ↦ hended c cl hget,
    fun _ _ _ _ c cl hget ↦ hended c cl hget, Or.inr (Or.inl ⟨⟨.ending, none, false⟩, ?_, rfl⟩)⟩
  · rcases hattempt a attempt hget with hdone | rfl
    · rw [AttemptStage.underWay_of_client? hc] at hdone
      cases hdone
    · cases hc
  · rcases hattempt a attempt hget with hdone | rfl
    · rw [AttemptStage.underWay_of_client? hc] at hdone
      cases hdone
    · cases hc
  · rcases hattempt a attempt hget with hdone | rfl
    · exact hdone
    · cases hinitial
  · exact List.mem_append_right _ List.mem_cons_self

/-- The old client has ended, and a new one takes its place. -/
theorem Upkeep.installClient (h : Upkeep p) (hone : OneWired p) {a : ℕ} {attempt : Attempt}
    (hget : p.attempts[a]? = some attempt) (hstage : attempt.stage = .ending) :
    Upkeep (p.installClient a attempt) := by
  have hnone : attempt.settled = none := by
    by_contra hsettled
    obtain ⟨c, hc⟩ := hone.settled a attempt hget hsettled
    rw [hstage] at hc
    cases hc
  refine h.become hone hget (by rw [hstage]; rfl) rfl rfl nofun (fun c hc ↦ ⟨?_, ?_⟩)
    (fun c cl hcl hne ↦ ?_) (Or.inr (Or.inl rfl))
  · obtain rfl : p.clients.length = c := Option.some.inj hc
    exact ⟨{}, Lists.getElem?_concat_eq_some.mpr (Or.inr ⟨rfl, rfl⟩), rfl, rfl, nofun⟩
  · rintro (hsettled | ⟨_, _, ⟨⟩⟩)
    rw [show attempt.settled = some true from hsettled] at hnone
    cases hnone
  · rcases Lists.getElem?_concat_eq_some.mp hcl with hcl | ⟨rfl, -⟩
    · exact h.ending a attempt hget hstage c cl hcl
    · exact absurd rfl hne

/-- `connect()` settles. -/
theorem Upkeep.connectSettles (h : Upkeep p) (hone : OneWired p) {a c : ℕ} {attempt : Attempt}
    (hget : p.attempts[a]? = some attempt) (hstage : attempt.stage = .connecting c) (ok : Bool) :
    Upkeep ((p.updateClient c fun cl ↦ { cl with connected := ok }).setAttempt a
      { attempt with settled := some ok }) := by
  have hc : attempt.stage.client? = some c := by rw [hstage]; rfl
  obtain ⟨cl, hcl, hwired, hended, herrored⟩ := h.minded a attempt hget c hc
  have hcl' : (p.updateClient c fun cl ↦ { cl with connected := ok }).clients[c]? =
      some { cl with connected := ok } := by
    rw [getElem?_updateClient, if_pos rfl, hcl, Option.map_some]
  refine h.become hone hget (AttemptStage.underWay_of_client? hc) rfl rfl (by rw [hstage]; nofun)
    (fun i hi ↦ ?_) (fun i cl' hget' hne ↦ ?_)
    (Or.inr (Or.inl (AttemptStage.underWay_of_client? hc)))
  · obtain rfl : i = c := Option.some.inj (hi.symm.trans hc)
    refine ⟨⟨_, hcl', hwired, hended, herrored⟩, ?_⟩
    rintro (hsettled | ⟨i', point, hensuring⟩)
    · exact ⟨_, hcl', Option.some.inj hsettled⟩
    · rw [hstage] at hensuring
      cases hensuring
  · change (p.updateClient c _).clients[i]? = _ at hget'
    rw [getElem?_updateClient] at hget'
    split at hget'
    · obtain ⟨cl₀, hcl₀, rfl⟩ := Option.map_eq_some_iff.mp hget'
      exact h.replaced i cl₀ hcl₀ hne
    · exact h.replaced i cl' hget' hne

/-- **Step lemma.** -/
theorem Upkeep.step (h : Upkeep p) (hone : OneWired p) {e : PgEvent} (he : p.FailsFast e)
    (hstep : p.step e = some p') (hlive : p'.destroyed = false) : Upkeep p' := by
  have hlive₀ : p.destroyed = false := by
    rcases (moved_of_step hstep).destroyed with hsame | ⟨-, hset⟩
    · exact hsame.symm.trans hlive
    · rw [hset] at hlive
      cases hlive
  by_cases hdrives : Drives e
  · cases e with
    | clientError c =>
      simp only [PostgresService.step, Option.bind_eq_bind, Option.bind_eq_some_iff] at hstep
      obtain ⟨cl, -, -, -, hstep⟩ := hstep
      cases hstep
      exact h.clientError hlive₀ c
    | reconnectTimerFires =>
      rw [PostgresService.step] at hstep
      split at hstep
      · rename_i hset
        cases hstep
        exact h.reconnect hone hlive₀ he hset
      · cases hstep
    | endSettles a =>
      simp only [PostgresService.step, Option.bind_eq_bind, Option.bind_eq_some_iff,
        Option.guard_eq_some'] at hstep
      obtain ⟨attempt, hget, -, hending, hstep⟩ := hstep
      cases hstep
      exact h.installClient hone hget hending
    | connectSettles a ok =>
      simp only [PostgresService.step, Option.bind_eq_bind, Option.bind_eq_some_iff] at hstep
      obtain ⟨attempt, hget, hstep⟩ := hstep
      split at hstep
      · rename_i c hstage hsettled
        cases hstep
        exact h.connectSettles hone hget hstage ok
      · cases hstep
    | resumeAttempt a =>
      simp only [PostgresService.step, Option.bind_eq_bind, Option.bind_eq_some_iff] at hstep
      obtain ⟨attempt, hget, hstep⟩ := hstep
      split at hstep
      · rename_i hsettled
        exact h.continueAttempt hone hget hsettled hstep
      · rename_i hsettled
        cases hstep
        exact h.failAttempt hone hlive₀ hget (hsettled ▸ Option.some_ne_none _)
      · cases hstep
    | destroy =>
      cases hstep
      cases hlive
    | _ => exact hdrives.elim
  · obtain ⟨hflags, hattempts⟩ := frame_of_step hone hdrives hstep
    have hloop := loop_of_step hdrives hstep
    rw [loop, loop, Prod.mk.injEq, Prod.mk.injEq, Prod.mk.injEq] at hloop
    obtain ⟨hclient, -, htimer, hstages⟩ := hloop
    refine ⟨fun a attempt' hget' c hc ↦ ?_, fun a attempt' hget' hpast c hc ↦ ?_,
      fun a attempt' hget' hinitial ↦ ?_, fun c cl' hcl' hne ↦ ?_,
      fun a attempt' hget' hending c cl' hcl' ↦ ?_, ?_⟩
    · obtain ⟨attempt, hget, hstage, -⟩ := hattempts a attempt' hget'
      exact (h.minded a attempt hget c (hstage ▸ hc)).keep hflags htimer.ge
    · obtain ⟨attempt, hget, hstage, -, hsettled⟩ := hattempts a attempt' hget'
      refine (h.connected a attempt hget ?_ c (hstage ▸ hc)).keep hflags
      rcases hsettled with hsettled | hensuring
      · rwa [Attempt.PastConnect, hsettled, hstage] at hpast
      · exact Or.inr hensuring
    · obtain ⟨attempt, hget, hstage, hfirst, -⟩ := hattempts a attempt' hget'
      rw [hstage]
      exact h.initial a attempt hget (hfirst.symm.trans hinitial)
    · obtain ⟨cl, hcl, -, -, -, hended⟩ := hflags.symm.forth hcl'
      rw [← hended]
      exact h.replaced c cl hcl fun heq ↦ hne (heq.trans hclient.symm)
    · obtain ⟨attempt, hget, hstage, -⟩ := hattempts a attempt' hget'
      obtain ⟨cl, hcl, -, -, -, hended⟩ := hflags.symm.forth hcl'
      rw [← hended]
      exact h.ending a attempt hget (hstage.symm.trans hending) c cl hcl
    · rw [htimer, hclient]
      rcases h.idle with hset | ⟨attempt, hmem, hway⟩ | ⟨hminded, hconnected⟩
      · exact Or.inl hset
      · obtain ⟨attempt', hmem', hstage⟩ :=
          List.mem_map.mp (hstages ▸ List.mem_map_of_mem hmem)
        exact Or.inr (Or.inl ⟨attempt', hmem', hstage ▸ hway⟩)
      · exact Or.inr (Or.inr ⟨hminded.keep hflags htimer.ge, hconnected.keep hflags⟩)

end PostgresService

end PostgresChat
