import PostgresChat.Lib.Lists
import PostgresChat.Postgres.Undisturbed

/-!
# Calls whose command fails

A call of `subscribeToRoomChannel` or `unsubscribeFromRoomChannel` changes the count first and rolls
it back when its command fails. The `catch` writes a fixed value: it deletes the count, or sets it
to one. That is the value from before the call, so it undoes the call as long as no call on the room
has been made since, or every such call has failed and been rolled back as well (`LastWhenFailing`).

The state is compared with what the calls amount to, one after another in the order they were made
(`tally`): a call that has been rolled back is passed over, and one whose command has not been
executed counts, but has not reached the server.
-/

namespace PostgresChat

open Execution

/-! ## What the calls amount to -/

namespace CallKind

def roomId : CallKind → RoomId
  | .subscribe roomId | .unsubscribe roomId => roomId

/-- What a call makes of the count. -/
def apply (n : ℕ) : CallKind → ℕ
  | .subscribe _ => n + 1
  | .unsubscribe _ => n - 1

/-- A call that finds the count `n` issues a command. -/
def Switches (n : ℕ) : CallKind → Prop
  | .subscribe _ => n = 0
  | .unsubscribe _ => n = 1

instance (n : ℕ) : (kind : CallKind) → Decidable (kind.Switches n)
  | .subscribe _ => inferInstanceAs (Decidable (n = 0))
  | .unsubscribe _ => inferInstanceAs (Decidable (n = 1))

def verb : CallKind → Verb
  | .subscribe _ => .listen
  | .unsubscribe _ => .unlisten

/-- The command of the call number `id`. -/
def command (kind : CallKind) (id : ℕ) : Command :=
  ⟨kind.verb, getRoomNotifyChannel kind.roomId, .call id⟩

end CallKind

namespace CallStatus

/-- The call has not returned. -/
def Pending : CallStatus → Prop
  | .waiting | .settled _ => True
  | .returned _ => False

/-- If the call has issued a command, the server has executed it. -/
def Executed : CallStatus → Prop
  | .settled ok | .returned ok => ok = true
  | .waiting => False

instance : (status : CallStatus) → Decidable status.Executed
  | .settled ok | .returned ok => inferInstanceAs (Decidable (ok = true))
  | .waiting => isFalse id

end CallStatus

/-- A count, and whether the server listens. -/
structure Tally where
  count : ℕ
  listening : Bool
  deriving DecidableEq

/-- One more call. -/
def Tally.add (R : RoomId) (t : Tally) (call : Call) : Tally :=
  if call.kind.roomId = R ∧ call.status ≠ .returned false then
    ⟨call.kind.apply t.count,
      if call.kind.Switches t.count ∧ call.status.Executed then call.kind.verb = .listen
      else t.listening⟩
  else t

/-- What the calls amount to for a room. -/
def tally (R : RoomId) (calls : List Call) : Tally := calls.foldl (Tally.add R) ⟨0, false⟩

/-- The count when only the calls that returned successfully are made, in the order they were
made. -/
def replay (R : RoomId) (calls : List Call) : ℕ :=
  (calls.filter fun call ↦ call.kind.roomId = R ∧ call.status = .returned true).foldl
    (fun n call ↦ call.kind.apply n) 0

section

variable {R : RoomId} {calls : List Call} {call call' : Call} {t : Tally} {id : ℕ}

theorem tally_concat : tally R (calls ++ [call]) = (tally R calls).add R call := by
  rw [tally, tally, List.foldl_append, List.foldl_cons, List.foldl_nil]

theorem tally_take_succ (h : calls[id]? = some call) :
    tally R (calls.take (id + 1)) = (tally R (calls.take id)).add R call := by
  rw [List.take_add_one, h, Option.toList_some, tally_concat]

theorem Tally.add_of_roomId_ne (h : call.kind.roomId ≠ R) : t.add R call = t :=
  if_neg fun hcall ↦ h hcall.1

theorem Tally.add_of_rolledBack (h : call.status = .returned false) : t.add R call = t :=
  if_neg fun hcall ↦ hcall.2 h

theorem Tally.count_add (hroom : call.kind.roomId = R) (hstatus : call.status ≠ .returned false) :
    (t.add R call).count = call.kind.apply t.count := by
  rw [Tally.add, if_pos ⟨hroom, hstatus⟩]

/-- A call that has not switched the server, or not yet. -/
theorem Tally.listening_add
    (h : call.kind.roomId = R → ¬(call.kind.Switches t.count ∧ call.status.Executed)) :
    (t.add R call).listening = t.listening := by
  rw [Tally.add]
  split
  · rename_i hcall
    exact if_neg (h hcall.1)
  · rfl

theorem count_tally (calls : List Call) : (tally R calls).count = calls.foldl (fun n call ↦
    if call.kind.roomId = R ∧ call.status ≠ .returned false then call.kind.apply n else n) 0 := by
  induction calls using List.reverseRecOn with
  | nil => rfl
  | append_singleton calls call ih =>
    rw [tally_concat, List.foldl_append, ← ih, List.foldl_cons, List.foldl_nil, Tally.add]
    split <;> rfl

/-- A call that has been rolled back in neither list, or in both. -/
theorem count_tally_set (h : ∀ c, calls[id]? = some c → c.kind = call.kind ∧
      (c.status = .returned false ↔ call.status = .returned false)) :
    (tally R (calls.set id call)).count = (tally R calls).count := by
  rw [count_tally, count_tally]
  refine Lists.foldl_set (fun c hc n ↦ ?_) 0
  obtain ⟨hkind, hstatus⟩ := h c hc
  simp only [hkind, ne_eq, hstatus]

/-- Calls that have been rolled back amount to nothing. -/
theorem tally_of_drop
    (h : ∀ c ∈ calls.drop id, c.kind.roomId = R → c.status = .returned false) :
    tally R calls = tally R (calls.take id) := by
  conv_lhs => rw [← List.take_append_drop id calls, tally, List.foldl_append, ← tally]
  refine Lists.foldl_eq_self (fun c hc t ↦ ?_) _
  by_cases hroom : c.kind.roomId = R
  · exact Tally.add_of_rolledBack (h c hc hroom)
  · exact Tally.add_of_roomId_ne hroom

/-- Behind the call number `id` nothing has switched the server. -/
theorem listening_tally_take (id : ℕ)
    (h : ∀ j c, id ≤ j → calls[j]? = some c → c.kind.roomId = R →
      ¬(c.kind.Switches (tally R (calls.take j)).count ∧ c.status.Executed)) :
    (tally R calls).listening = (tally R (calls.take id)).listening := by
  have hupto : ∀ j, id ≤ j → j ≤ calls.length →
      (tally R (calls.take j)).listening = (tally R (calls.take id)).listening := by
    intro j hj
    induction j, hj using Nat.le_induction with
    | base => exact fun _ ↦ rfl
    | succ j hj ih =>
      intro hlt
      have hget : calls[j]? = some calls[j] := List.getElem?_eq_getElem hlt
      rw [tally_take_succ hget, Tally.listening_add (h j _ hj hget), ih (Nat.le_of_succ_le hlt)]
  by_cases hid : id ≤ calls.length
  · rw [← hupto _ hid le_rfl, List.take_length]
  · rw [List.take_of_length_le (Nat.le_of_not_le hid)]

/-- When all calls have returned, the room is listened on if its count is positive. -/
theorem tally_of_returned (h : ∀ call ∈ calls, ∃ ok, call.status = .returned ok) :
    (tally R calls).count = replay R calls ∧
      ((tally R calls).listening = true ↔ 0 < (tally R calls).count) := by
  induction calls using List.reverseRecOn with
  | nil => exact ⟨rfl, by simp [tally]⟩
  | append_singleton calls call ih =>
    obtain ⟨hcount, hlistening⟩ := ih fun call hcall ↦ h call (List.mem_append_left _ hcall)
    obtain ⟨ok, hok⟩ := h call (List.mem_append_right _ (List.mem_singleton_self _))
    rw [tally_concat, replay, List.filter_append, List.foldl_append, ← replay]
    by_cases hcall : call.kind.roomId = R ∧ call.status = .returned true
    · have hadd : (tally R calls).add R call = ⟨call.kind.apply (tally R calls).count,
          if call.kind.Switches (tally R calls).count then call.kind.verb = .listen
          else (tally R calls).listening⟩ := by
        rw [Tally.add, if_pos ⟨hcall.1, by rw [hcall.2]; decide⟩]
        simp [hcall.2, CallStatus.Executed]
      rw [hadd, List.filter_singleton, decide_eq_true hcall, cond_true, List.foldl_cons,
        List.foldl_nil, hcount]
      refine ⟨rfl, ?_⟩
      rw [hcount] at hlistening
      cases hkind : call.kind with
      | subscribe R' =>
        by_cases hzero : replay R calls = 0
        · simp [CallKind.apply, CallKind.Switches, CallKind.verb, hzero]
        · simp only [CallKind.apply, CallKind.Switches, hzero, if_false]
          exact ⟨fun _ ↦ Nat.succ_pos _, fun _ ↦ hlistening.mpr (Nat.pos_of_ne_zero hzero)⟩
      | unsubscribe R' =>
        by_cases hone : replay R calls = 1
        · simp [CallKind.apply, CallKind.Switches, CallKind.verb, hone]
        · simp only [CallKind.apply, CallKind.Switches, hone, if_false]
          rw [hlistening]
          omega
    · have hadd : (tally R calls).add R call = tally R calls := by
        by_cases hroom : call.kind.roomId = R
        · refine Tally.add_of_rolledBack ?_
          cases ok with
          | false => exact hok
          | true => exact absurd ⟨hroom, hok⟩ hcall
        · exact Tally.add_of_roomId_ne hroom
      rw [hadd, List.filter_singleton, decide_eq_false hcall, cond_false, List.foldl_nil]
      exact ⟨hcount, hlistening⟩

end

/-! ## The commands that wait -/

/-- The commands of the calls that wait, in the order of the calls; the first call is number `i`. -/
def awaited : ℕ → List Call → List Command
  | _, [] => []
  | i, call :: calls =>
    if call.status = .waiting then call.kind.command i :: awaited (i + 1) calls
    else awaited (i + 1) calls

theorem awaited_concat (i : ℕ) (calls : List Call) (call : Call) :
    awaited i (calls ++ [call]) =
      awaited i calls ++
        if call.status = .waiting then [call.kind.command (i + calls.length)] else [] := by
  induction calls generalizing i with
  | nil => rfl
  | cons c calls ih =>
    rw [List.cons_append, awaited, awaited, ih, List.length_cons,
      show i + 1 + calls.length = i + (calls.length + 1) by omega]
    split <;> rfl

/-- A call that does not wait, before or after. -/
theorem awaited_set {i id : ℕ} {calls : List Call} {call : Call}
    (h : ∀ c, calls[id]? = some c → c.status ≠ .waiting) (hcall : call.status ≠ .waiting) :
    awaited i (calls.set id call) = awaited i calls := by
  induction calls generalizing i id with
  | nil => rfl
  | cons c calls ih =>
    cases id with
    | zero => rw [List.set_cons_zero, awaited, awaited, if_neg hcall, if_neg (h c rfl)]
    | succ id => rw [List.set_cons_succ, awaited, awaited, ih fun c hc ↦ h c hc]

/-- The first command that waits is that of the first call that waits. -/
theorem awaited_eq_cons {i : ℕ} {calls : List Call} {cmd : Command} {rest : List Command}
    (h : awaited i calls = cmd :: rest) :
    ∃ id call, calls[id]? = some call ∧ call.status = .waiting ∧ cmd = call.kind.command (i + id) ∧
      (∀ j c, j < id → calls[j]? = some c → c.status ≠ .waiting) ∧
      ∀ call', call'.status ≠ .waiting → awaited i (calls.set id call') = rest := by
  induction calls generalizing i with
  | nil => cases h
  | cons c calls ih =>
    rw [awaited] at h
    split at h
    · rename_i hwaiting
      obtain ⟨rfl, rfl⟩ := List.cons_eq_cons.mp h
      refine ⟨0, c, rfl, hwaiting, rfl, fun j _ hj ↦ absurd hj (Nat.not_lt_zero j), ?_⟩
      intro call' hcall'
      rw [List.set_cons_zero, awaited, if_neg hcall']
    · rename_i hwaiting
      obtain ⟨id, call, hget, hstatus, hcmd, hbefore, hset⟩ := ih h
      refine ⟨id + 1, call, hget, hstatus, ?_, ?_, fun call' hcall' ↦ ?_⟩
      · rw [hcmd, show i + 1 + id = i + (id + 1) by omega]
      · rintro (_ | j) c' hj hc'
        · obtain rfl := Option.some.inj hc'
          exact hwaiting
        · exact hbefore j c' (Nat.lt_of_succ_lt_succ hj) hc'
      · rw [List.set_cons_succ, awaited, if_neg hwaiting, hset call' hcall']

/-! ## The invariant -/

/-- The events there are while the connection is kept: commands may fail. -/
def PgEvent.Kept : PgEvent → Prop
  | .subscribe _ | .unsubscribe _ | .execCommand .. | .resumeCall _ | .notify _ | .deliver _ => True
  | .clientError _ | .reconnectTimerFires | .endSettles _ | .connectSettles .. | .resumeAttempt _
  | .destroy => False

instance : (e : PgEvent) → Decidable e.Kept
  | .subscribe _ | .unsubscribe _ | .execCommand .. | .resumeCall _ | .notify _ | .deliver _ =>
    isTrue trivial
  | .clientError _ | .reconnectTimerFires | .endSettles _ | .connectSettles .. | .resumeAttempt _
  | .destroy => isFalse id

namespace PostgresService

variable {p p' : PostgresService} {cl cl' : Client} {R : RoomId}

/-- When a call continues whose command failed, the calls on its room made after it have failed too
and been rolled back. -/
def LastWhenFailing (p : PostgresService) : PgEvent → Prop
  | .resumeCall id => ∀ call ∈ p.calls[id]?, call.status = .settled false →
      ∀ call' ∈ p.calls.drop (id + 1), call'.kind.roomId = call.kind.roomId →
        call'.status = .returned false
  | _ => True

instance (p : PostgresService) : (e : PgEvent) → Decidable (p.LastWhenFailing e)
  | .resumeCall id =>
      inferInstanceAs (Decidable (∀ call ∈ p.calls[id]?, call.status = .settled false →
      ∀ call' ∈ p.calls.drop (id + 1), call'.kind.roomId = call.kind.roomId →
        call'.status = .returned false))
  | .subscribe _ | .unsubscribe _ | .execCommand .. | .notify _ | .deliver _
  | .clientError _ | .reconnectTimerFires | .endSettles _ | .connectSettles .. | .resumeAttempt _
  | .destroy => isTrue trivial

/-- The state is what the calls amount to. -/
structure Tallied (p : PostgresService) (cl : Client) : Prop where
  clients : p.clients = [cl]
  listenClient : p.listenClient = 0
  count : ∀ R, p.roomCount R = (tally R p.calls).count
  listening : ∀ R, getRoomNotifyChannel R ∈ cl.listening ↔ (tally R p.calls).listening = true
  queue : cl.queue = awaited 0 p.calls
  /-- A call that has not returned has found the count at which it issues a command. -/
  pending : ∀ (id : ℕ) (call : Call), p.calls[id]? = some call → call.status.Pending →
    call.kind.Switches (tally call.kind.roomId (p.calls.take id)).count
  /-- No call behind one that waits has switched the server. -/
  behind : ∀ (id id' : ℕ) (call call' : Call), id < id' → p.calls[id]? = some call →
    call.status = .waiting → p.calls[id']? = some call' → call'.status.Executed →
      ¬ call'.kind.Switches (tally call'.kind.roomId (p.calls.take id')).count

theorem tallied_ready (nodeId : JsString) : Tallied (ready nodeId)
    { connected := true, listening := {typingChannel, presenceChannel} } := by
  refine ⟨rfl, rfl, fun _ ↦ rfl, fun R ↦ ?_, rfl, ?_, ?_⟩
  · simp [tally, ready]
  · rintro id call ⟨⟩
  · rintro id id' call call' - ⟨⟩

/-! ## Steps -/

/-- A call is made: it issues a command, or returns at once. -/
theorem Tallied.invoke (h : Tallied p cl) (kind : CallKind) {status : CallStatus}
    (hstatus : status = .waiting ∧ kind.Switches (p.roomCount kind.roomId) ∨
      status = .returned true ∧ ¬ kind.Switches (p.roomCount kind.roomId))
    (hcalls : p'.calls = p.calls ++ [⟨kind, status⟩])
    (hcount : ∀ R, p'.roomCount R = if R = kind.roomId then kind.apply (p.roomCount kind.roomId)
      else p.roomCount R)
    (hlistenClient : p'.listenClient = p.listenClient) (hclients : p'.clients = [cl'])
    (hlistening : cl'.listening = cl.listening)
    (hqueue : cl'.queue = cl.queue ++
      if status = .waiting then [kind.command p.calls.length] else []) : Tallied p' cl' := by
  have hreturned : status ≠ .returned false := by
    rcases hstatus with ⟨rfl, -⟩ | ⟨rfl, -⟩ <;> rintro ⟨⟩
  have hquiet : status.Executed → ¬ kind.Switches (p.roomCount kind.roomId) := by
    rcases hstatus with ⟨rfl, -⟩ | ⟨rfl, hquiet⟩
    · exact False.elim
    · exact fun _ ↦ hquiet
  -- An item of the longer list is an old one, or the new one.
  have hitem : ∀ {id : ℕ} {c : Call}, p'.calls[id]? = some c →
      p.calls[id]? = some c ∧ p'.calls.take id = p.calls.take id ∨
        id = p.calls.length ∧ c = ⟨kind, status⟩ ∧ p'.calls.take id = p.calls := by
    intro id c hget
    rw [hcalls] at hget ⊢
    rcases Lists.getElem?_concat_eq_some.mp hget with hget | ⟨rfl, rfl⟩
    · have hlt := (List.getElem?_eq_some_iff.mp hget).1
      exact Or.inl ⟨hget, List.take_append_of_le_length hlt.le⟩
    · exact Or.inr ⟨rfl, rfl, List.take_left⟩
  refine ⟨hclients, hlistenClient.trans h.listenClient, fun R ↦ ?_, fun R ↦ ?_, ?_, ?_, ?_⟩
  · rw [hcount, hcalls, tally_concat]
    split
    · rename_i hR
      subst hR
      rw [h.count]
      exact Eq.symm (Tally.count_add rfl hreturned)
    · rename_i hR
      rw [Tally.add_of_roomId_ne (fun hroom ↦ hR hroom.symm), h.count]
  · rw [hlistening, h.listening, hcalls, tally_concat, Tally.listening_add]
    rintro rfl ⟨hswitches, hexecuted⟩
    rw [← h.count] at hswitches
    exact hquiet hexecuted hswitches
  · rw [hqueue, hcalls, awaited_concat, h.queue, Nat.zero_add]
  · intro id c hget hpending
    rcases hitem hget with ⟨hold, htake⟩ | ⟨rfl, rfl, htake⟩
    · rw [htake]
      exact h.pending id c hold hpending
    · rw [htake, ← h.count]
      rcases hstatus with ⟨-, hswitches⟩ | ⟨rfl, -⟩
      · exact hswitches
      · exact hpending.elim
  · intro id id' c c' hlt hget hwaiting hget' hexecuted
    rcases hitem hget' with ⟨hold', htake⟩ | ⟨rfl, rfl, htake⟩
    · rcases hitem hget with ⟨hold, -⟩ | ⟨rfl, -, -⟩
      · rw [htake]
        exact h.behind id id' c c' hlt hold hwaiting hold' hexecuted
      · exact absurd (List.getElem?_eq_some_iff.mp hold').1 (Nat.lt_asymm hlt)
    · rw [htake, ← h.count]
      exact hquiet hexecuted

/-- What a command does to the channel of a room. -/
theorem mem_effect_command {kind : CallKind} {id : ℕ} {listening : Finset Channel} :
    getRoomNotifyChannel R ∈ (kind.command id).effect listening ↔
      if kind.roomId = R then kind.verb = .listen else getRoomNotifyChannel R ∈ listening := by
  by_cases hR : kind.roomId = R
  · subst hR
    cases kind <;> simp [CallKind.command, Command.effect, CallKind.verb]
  · have hne : R ≠ kind.roomId := fun heq ↦ hR heq.symm
    rw [if_neg hR]
    cases kind <;> simp [CallKind.command, Command.effect, CallKind.verb, hne]

theorem count_take_set {id j : ℕ} {calls : List Call} {call call' : Call}
    (hget : calls[id]? = some call) (hkind : call'.kind = call.kind)
    (hstatus : call'.status = .returned false ↔ call.status = .returned false) :
    (tally R ((calls.set id call').take j)).count = (tally R (calls.take j)).count := by
  rw [List.take_set]
  refine count_tally_set fun c hc ↦ ?_
  rw [List.getElem?_take] at hc
  split at hc
  · obtain rfl := Option.some.inj (hget.symm.trans hc)
    exact ⟨hkind.symm, hstatus.symm⟩
  · cases hc

/-- A command settles: it is that of the first call that waits. -/
theorem Tallied.settle (h : Tallied p cl) {cmd : Command} {rest : List Command} {ok : Bool}
    (hqueue : cl.queue = cmd :: rest) :
    Tallied ((p.updateClient 0 fun cl' ↦ { cl' with
        queue := rest
        listening := if ok then cmd.effect cl.listening else cl.listening }).settle cmd.issuer ok)
      { cl with
        queue := rest
        listening := if ok then cmd.effect cl.listening else cl.listening } := by
  obtain ⟨id, call, hget, hwaiting, hcmd, hfirst, hrest⟩ := awaited_eq_cons (h.queue ▸ hqueue)
  rw [Nat.zero_add] at hcmd
  have hissuer : cmd.issuer = .call id := by rw [hcmd]; rfl
  have hswitches := h.pending id call hget (by rw [hwaiting]; trivial)
  have hcalls : ((p.updateClient 0 fun cl' ↦ { cl' with
      queue := rest
      listening := if ok then cmd.effect cl.listening else cl.listening }).settle cmd.issuer
      ok).calls = p.calls.set id { call with status := .settled ok } := by
    rw [hissuer]
    exact Lists.modify_eq_set hget
  have hcount : ∀ (R : RoomId) (j : ℕ),
      (tally R ((p.calls.set id { call with status := .settled ok }).take j)).count =
        (tally R (p.calls.take j)).count := fun R j ↦
    count_take_set hget rfl (by rw [hwaiting]; exact ⟨by rintro ⟨⟩, by rintro ⟨⟩⟩)
  refine ⟨?_, ?_, fun R ↦ ?_, fun R ↦ ?_, ?_, ?_, ?_⟩
  · rw [hissuer]
    change p.clients.modify 0 _ = _
    rw [h.clients]
    rfl
  · rw [hissuer]
    exact h.listenClient
  · rw [hcalls, ← List.take_length (l := p.calls.set id _), hcount, List.length_set,
      List.take_length, ← h.count, hissuer]
    rfl
  · -- Behind the call nothing has switched the server, before the command settles or after.
    have hold : (tally R p.calls).listening = (tally R (p.calls.take id)).listening := by
      refine listening_tally_take _ fun j c hj hc _ hswitched ↦ ?_
      rcases hj.eq_or_lt with rfl | hlt
      · obtain rfl := Option.some.inj (hget.symm.trans hc)
        rw [hwaiting] at hswitched
        exact hswitched.2
      · subst_vars
        exact h.behind id j call c hlt hget hwaiting hc hswitched.2 hswitched.1
    have hnew : (tally R (p.calls.set id { call with status := .settled ok })).listening =
        ((tally R (p.calls.take id)).add R { call with status := .settled ok }).listening := by
      rw [listening_tally_take (id + 1), tally_take_succ
        (List.getElem?_set_self (List.getElem?_eq_some_iff.mp hget).1), List.take_set_of_le le_rfl]
      intro j c hj hc _ hswitched
      subst_vars
      rw [List.getElem?_set_ne (Nat.ne_of_lt hj)] at hc
      rw [hcount] at hswitched
      exact h.behind id j call c hj hget hwaiting hc hswitched.2 hswitched.1
    rw [hcalls, hnew]
    by_cases hexecuted : call.kind.roomId = R ∧ ok = true
    · obtain ⟨rfl, rfl⟩ := hexecuted
      rw [if_pos rfl, hcmd, mem_effect_command, if_pos rfl, Tally.add,
        if_pos ⟨rfl, by rintro ⟨⟩⟩, if_pos ⟨hswitches, rfl⟩, decide_eq_true_iff]
    · have hsame :
          ((tally R (p.calls.take id)).add R { call with status := .settled ok }).listening =
            (tally R (p.calls.take id)).listening :=
        Tally.listening_add fun hR hswitched ↦ hexecuted ⟨hR, hswitched.2⟩
      rw [hsame, ← hold, ← h.listening]
      cases ok with
      | false => rfl
      | true =>
        rw [if_pos rfl, hcmd, mem_effect_command, if_neg fun hR ↦ hexecuted ⟨hR, rfl⟩]
  · rw [hcalls]
    exact (hrest _ (by rintro ⟨⟩)).symm
  · intro j c hj hpending
    rw [hcalls] at hj ⊢
    rw [hcount]
    rcases Lists.of_getElem?_set hj with ⟨-, hj⟩ | ⟨rfl, rfl⟩
    · exact h.pending j c hj hpending
    · exact hswitches
  · intro i j c c' hlt hi hc hj hexecuted
    rw [hcalls] at hi hj ⊢
    rw [hcount]
    rcases Lists.of_getElem?_set hi with ⟨-, hi⟩ | ⟨rfl, rfl⟩
    · rcases Lists.of_getElem?_set hj with ⟨-, hj⟩ | ⟨rfl, rfl⟩
      · exact h.behind i j c c' hlt hi hc hj hexecuted
      · exact absurd hc (hfirst i c hlt hi)
    · cases hc

/-- A call continues whose command has been executed. -/
theorem Tallied.returnCall (h : Tallied p cl) {id : ℕ} {call : Call}
    (hget : p.calls[id]? = some call)
    (hsettled : call.status = .settled true) :
    Tallied (p.setCall id { call with status := .returned true }) cl := by
  have htally : ∀ (R : RoomId) (j : ℕ),
      tally R ((p.calls.set id { call with status := .returned true }).take j) =
        tally R (p.calls.take j) := by
    intro R j
    rw [List.take_set]
    refine Lists.foldl_set (fun c hc t ↦ ?_) _
    rw [List.getElem?_take] at hc
    split at hc
    · obtain rfl := Option.some.inj (hget.symm.trans hc)
      simp [Tally.add, hsettled, CallStatus.Executed]
    · cases hc
  have hfull : ∀ R : RoomId, tally R (p.calls.set id { call with status := .returned true }) =
      tally R p.calls := by
    intro R
    have h := htally R p.calls.length
    rwa [List.take_length, List.take_of_length_le (by rw [List.length_set])] at h
  refine ⟨h.clients, h.listenClient, fun R ↦ ?_, fun R ↦ ?_, ?_, ?_, ?_⟩
  · exact (h.count R).trans (congrArg Tally.count (hfull R)).symm
  · exact (h.listening R).trans (by rw [← hfull R]; rfl)
  · refine h.queue.trans (awaited_set (fun c hc ↦ ?_) (by rintro ⟨⟩)).symm
    obtain rfl := Option.some.inj (hget.symm.trans hc)
    rw [hsettled]
    rintro ⟨⟩
  · intro j c hj hpending
    change (p.calls.set id _)[j]? = some c at hj
    change c.kind.Switches (tally _ ((p.calls.set id _).take j)).count
    rw [htally]
    rcases Lists.of_getElem?_set hj with ⟨-, hj⟩ | ⟨rfl, rfl⟩
    · exact h.pending j c hj hpending
    · cases hpending
  · intro i j c c' hlt hi hc hj hexecuted
    change (p.calls.set id _)[i]? = some c at hi
    change (p.calls.set id _)[j]? = some c' at hj
    change ¬ c'.kind.Switches (tally _ ((p.calls.set id _).take j)).count
    rw [htally]
    rcases Lists.of_getElem?_set hi with ⟨-, hi⟩ | ⟨rfl, rfl⟩
    · rcases Lists.of_getElem?_set hj with ⟨-, hj⟩ | ⟨rfl, rfl⟩
      · exact h.behind i j c c' hlt hi hc hj hexecuted
      · exact h.behind i id c call hlt hi hc hget (by rw [hsettled]; rfl)
    · cases hc

/-- A call continues whose command has failed: the count is what it was before the call. -/
theorem Tallied.rollback (h : Tallied p cl) {id : ℕ} {call : Call} (hget : p.calls[id]? = some call)
    (hsettled : call.status = .settled false)
    (hlast : ∀ call' ∈ p.calls.drop (id + 1), call'.kind.roomId = call.kind.roomId →
      call'.status = .returned false) :
    Tallied ((p.rollback call.kind).setCall id { call with status := .returned false }) cl := by
  have hcalls : ((p.rollback call.kind).setCall id { call with status := .returned false }).calls =
      p.calls.set id { call with status := .returned false } := by
    cases call.kind <;> rfl
  have hclients : ((p.rollback call.kind).setCall id
      { call with status := .returned false }).clients = p.clients := by
    cases call.kind <;> rfl
  have hlistenClient : ((p.rollback call.kind).setCall id
      { call with status := .returned false }).listenClient = p.listenClient := by
    cases call.kind <;> rfl
  have hswitches := h.pending id call hget (by rw [hsettled]; trivial)
  -- The calls on other rooms amount to the same.
  have hother : ∀ (R : RoomId) (j : ℕ), call.kind.roomId ≠ R →
      tally R ((p.calls.set id { call with status := .returned false }).take j) =
        tally R (p.calls.take j) := by
    intro R j hR
    rw [List.take_set]
    refine Lists.foldl_set (fun c hc t ↦ ?_) _
    rw [List.getElem?_take] at hc
    split at hc
    · obtain rfl := Option.some.inj (hget.symm.trans hc)
      simp only [Tally.add, hR, false_and, if_false]
    · cases hc
  -- Those on the room of the call amount to what they amounted to before it.
  have hbefore : tally call.kind.roomId (p.calls.set id { call with status := .returned false }) =
      tally call.kind.roomId (p.calls.take id) := by
    have hlater : ∀ c ∈ (p.calls.set id { call with status := .returned false }).drop (id + 1),
        c.kind.roomId = call.kind.roomId → c.status = .returned false := by
      rw [List.drop_set_of_lt (Nat.lt_succ_self id)]
      exact hlast
    rw [tally_of_drop hlater, tally_take_succ (List.getElem?_set_self
      (List.getElem?_eq_some_iff.mp hget).1), Tally.add_of_rolledBack rfl,
        List.take_set_of_le le_rfl]
  have hfull : ∀ R : RoomId, call.kind.roomId ≠ R →
      tally R (p.calls.set id { call with status := .returned false }) = tally R p.calls := by
    intro R hR
    have h := hother R p.calls.length hR
    rwa [List.take_length, List.take_of_length_le (by rw [List.length_set])] at h
  -- A call on the room that has not been rolled back was made before.
  have hkeep : ∀ (j : ℕ) (c : Call), id ≠ j → p.calls[j]? = some c → c.status ≠ .returned false →
      tally c.kind.roomId ((p.calls.set id { call with status := .returned false }).take j) =
        tally c.kind.roomId (p.calls.take j) := by
    intro j c hj hc hstatus
    by_cases hR : call.kind.roomId = c.kind.roomId
    · rcases Nat.lt_or_gt_of_ne hj with hlt | hlt
      · have hmem : c ∈ p.calls.drop (id + 1) := by
          refine List.mem_of_getElem? (i := j - (id + 1)) ?_
          rw [List.getElem?_drop, show id + 1 + (j - (id + 1)) = j by omega]
          exact hc
        exact absurd (hlast c hmem hR.symm) hstatus
      · rw [List.take_set_of_le hlt.le]
    · exact hother c.kind.roomId j hR
  refine ⟨hclients.trans h.clients, hlistenClient.trans h.listenClient, fun R ↦ ?_, fun R ↦ ?_, ?_,
    ?_, ?_⟩
  · rw [hcalls]
    by_cases hR : call.kind.roomId = R
    · subst hR
      rw [hbefore]
      cases hkind : call.kind with
      | subscribe R =>
        rw [hkind] at hswitches
        exact ((roomCount_delete rfl R).trans (if_pos rfl)).trans hswitches.symm
      | unsubscribe R =>
        rw [hkind] at hswitches
        exact ((roomCount_set rfl R).trans (if_pos rfl)).trans hswitches.symm
    · rw [hfull R hR, ← h.count]
      cases hkind : call.kind with
      | subscribe R' =>
        rw [hkind] at hR
        exact (roomCount_delete rfl R).trans (if_neg fun heq ↦ hR heq.symm)
      | unsubscribe R' =>
        rw [hkind] at hR
        exact (roomCount_set rfl R).trans (if_neg fun heq ↦ hR heq.symm)
  · rw [hcalls, h.listening]
    by_cases hR : call.kind.roomId = R
    · subst hR
      have hunexecuted : ((tally call.kind.roomId (p.calls.take id)).add call.kind.roomId
          call).listening = (tally call.kind.roomId (p.calls.take id)).listening :=
        Tally.listening_add fun _ hswitched ↦ by
          rw [hsettled] at hswitched
          cases hswitched.2
      rw [hbefore, tally_of_drop hlast, tally_take_succ hget, hunexecuted]
    · rw [hfull R hR]
  · rw [hcalls]
    refine h.queue.trans (awaited_set (fun c hc ↦ ?_) (by rintro ⟨⟩)).symm
    obtain rfl := Option.some.inj (hget.symm.trans hc)
    rw [hsettled]
    rintro ⟨⟩
  · intro j c hj hpending
    rw [hcalls] at hj ⊢
    rcases Lists.of_getElem?_set hj with ⟨hne, hj⟩ | ⟨rfl, rfl⟩
    · rw [hkeep j c hne hj (by rintro hc; rw [hc] at hpending; exact hpending)]
      exact h.pending j c hj hpending
    · cases hpending
  · intro i j c c' hlt hi hc hj hexecuted
    rw [hcalls] at hi hj ⊢
    rcases Lists.of_getElem?_set hi with ⟨-, hi⟩ | ⟨rfl, rfl⟩
    · rcases Lists.of_getElem?_set hj with ⟨hne, hj⟩ | ⟨rfl, rfl⟩
      · rw [hkeep j c' hne hj (by rintro hc'; rw [hc'] at hexecuted; cases hexecuted)]
        exact h.behind i j c c' hlt hi hc hj hexecuted
      · cases hexecuted
    · cases hc

/-- **Step lemma.** -/
theorem Tallied.step (h : Tallied p cl) {e : PgEvent} (he : e.Kept) (hlast : p.LastWhenFailing e)
    (hstep : p.step e = some p') : ∃ cl', Tallied p' cl' := by
  -- Without a reconnect there is one client.
  have honly : ∀ {c : ℕ} {cl₀ : Client}, p.clients[c]? = some cl₀ → c = 0 ∧ cl₀ = cl := by
    intro c cl₀ hget
    rw [h.clients] at hget
    obtain ⟨hlt, heq⟩ := List.getElem?_eq_some_iff.mp hget
    obtain rfl : c = 0 := by simpa using hlt
    exact ⟨rfl, heq.symm⟩
  have hupdated : ∀ f : Client → Client, p.clients.modify 0 f = [f cl] := by
    intro f
    rw [h.clients]
    rfl
  have hissued : ∀ (q : PostgresService) (cmd : Command), q.clients = p.clients →
      (q.clientQuery p.listenClient cmd).clients = [{ cl with queue := cl.queue ++ [cmd] }] := by
    intro q cmd hq
    rw [h.listenClient]
    change q.clients.modify 0 _ = _
    rw [hq, hupdated]
  cases e with
  | subscribe R =>
    cases hstep
    have hcount := roomCount_subscribe p R
    rw [subscribeToRoomChannel] at hcount ⊢
    split at hcount
    · rename_i hzero
      rw [if_pos hzero]
      exact ⟨_, h.invoke (.subscribe R) (Or.inl ⟨rfl, hzero⟩) rfl hcount rfl
        (hissued _ _ rfl) rfl rfl⟩
    · rename_i hzero
      rw [if_neg hzero]
      exact ⟨cl, h.invoke (.subscribe R) (Or.inr ⟨rfl, hzero⟩) rfl hcount rfl h.clients rfl
        (List.append_nil _).symm⟩
  | unsubscribe R =>
    cases hstep
    have hcount := roomCount_unsubscribe p R
    rw [unsubscribeFromRoomChannel] at hcount ⊢
    split at hcount
    · rename_i hzero
      rw [if_pos hzero]
      refine ⟨cl, h.invoke (.unsubscribe R) (Or.inr ⟨rfl, ?_⟩) rfl hcount rfl h.clients rfl
        (List.append_nil _).symm⟩
      change p.roomCount R ≠ 1
      rw [hzero]
      exact Nat.zero_ne_one
    · rename_i hzero
      rw [if_neg hzero]
      split at hcount
      · rename_i hpos
        rw [if_pos hpos]
        refine ⟨cl, h.invoke (.unsubscribe R) (Or.inr ⟨rfl, ?_⟩) rfl hcount rfl h.clients rfl
          (List.append_nil _).symm⟩
        change p.roomCount R ≠ 1
        omega
      · rename_i hpos
        rw [if_neg hpos]
        refine ⟨_, h.invoke (.unsubscribe R) (Or.inl ⟨rfl, ?_⟩) rfl hcount rfl
          (hissued _ _ rfl) rfl rfl⟩
        change p.roomCount R = 1
        omega
  | execCommand c ok =>
    simp only [PostgresService.step, Option.bind_eq_bind, Option.bind_eq_some_iff] at hstep
    obtain ⟨cl₀, hget, -, -, hstep⟩ := hstep
    obtain ⟨rfl, rfl⟩ := honly hget
    split at hstep
    · cases hstep
    · rename_i cmd rest hqueue
      cases hstep
      exact ⟨_, h.settle hqueue⟩
  | resumeCall id =>
    simp only [PostgresService.step, Option.bind_eq_bind, Option.bind_eq_some_iff] at hstep
    obtain ⟨call, hget, hstep⟩ := hstep
    split at hstep
    · rename_i hstatus
      cases hstep
      exact ⟨cl, h.returnCall hget hstatus⟩
    · rename_i hstatus
      cases hstep
      -- The call that is rolled back is the last one of its room, so the fixed value is right.
      exact ⟨cl, h.rollback hget hstatus (hlast call hget hstatus)⟩
    all_goals cases hstep
  | notify note =>
    cases hstep
    have hclients : (p.notify note).clients = [if note.channel ∈ cl.listening then
        { cl with inbox := cl.inbox ++ [note] } else cl] := by
      rw [PostgresService.notify, h.clients]
      rfl
    refine ⟨_, hclients, h.listenClient, h.count, fun R ↦ ?_, ?_, h.pending, h.behind⟩
    · split <;> exact h.listening R
    · split <;> exact h.queue
  | deliver c =>
    simp only [PostgresService.step, Option.bind_eq_bind, Option.bind_eq_some_iff] at hstep
    obtain ⟨cl₀, hget, -, -, hstep⟩ := hstep
    obtain ⟨rfl, rfl⟩ := honly hget
    cases hstep
    exact ⟨_, hupdated _, h.listenClient, h.count, h.listening, h.queue, h.pending, h.behind⟩
  | _ => exact he.elim

/-! ## Once all calls have returned -/

/-- All calls have returned. -/
def AllReturned (p : PostgresService) : Prop :=
  ∀ call ∈ p.calls, call.status = .returned true ∨ call.status = .returned false

instance (p : PostgresService) : Decidable p.AllReturned :=
  inferInstanceAs (Decidable (∀ call ∈ p.calls, _))

/-- A failing call leaves no trace: the count is that of the calls which returned successfully, and
the connection listens on the channel if the count is positive. -/
def OnlySuccessfulCount (p : PostgresService) (R : RoomId) : Prop :=
  p.roomCount R = replay R p.calls ∧
    (p.ListensOn (getRoomNotifyChannel R) ↔ 0 < p.roomCount R)

instance (p : PostgresService) (R : RoomId) : Decidable (p.OnlySuccessfulCount R) :=
  inferInstanceAs (Decidable (_ ∧ _))

/-- **Rollback.** When a call that continues after a failure is the last one on its room that has
not been rolled back, failing calls leave no trace. -/
theorem failed_calls_leave_no_trace {nodeId : JsString} {es : List PgEvent}
    (hkept : ∀ e ∈ es, e.Kept) (hlast : Guarded step LastWhenFailing (ready nodeId) es)
    (hrun : run step (ready nodeId) es = some p) (hreturned : p.AllReturned) (R : RoomId) :
    p.OnlySuccessfulCount R := by
  obtain ⟨cl, h⟩ : ∃ cl, Tallied p cl := by
    refine guarded_invariant (fun p ↦ ∃ cl, Tallied p cl) ?_ ⟨_, tallied_ready nodeId⟩
      ((guarded_of_forall PgEvent.Kept hkept _).and hlast) hrun
    rintro q e q' ⟨cl, h⟩ ⟨he, hlast⟩ hstep
    exact h.step he hlast hstep
  obtain ⟨hcount, hlistening⟩ : (tally R p.calls).count = replay R p.calls ∧
      ((tally R p.calls).listening = true ↔ 0 < (tally R p.calls).count) := by
    refine tally_of_returned fun call hcall ↦ ?_
    rcases hreturned call hcall with hok | hfailed
    · exact ⟨true, hok⟩
    · exact ⟨false, hfailed⟩
  refine ⟨(h.count R).trans hcount, ?_⟩
  rw [h.count R, ← hlistening, ← h.listening R, ListensOn, h.clients, h.listenClient]
  simp

/-- A LISTEN fails, the next one succeeds, and then an UNLISTEN fails. -/
theorem failed_calls_leave_no_trace_twice :
    ∃ p, run step (ready []) [.subscribe Uuid.nil.text, .execCommand 0 false, .resumeCall 0,
        .subscribe Uuid.nil.text, .execCommand 0 true, .resumeCall 1, .unsubscribe Uuid.nil.text,
        .execCommand 0 false, .resumeCall 2] = some p ∧
      p.roomCount Uuid.nil.text = 1 ∧ p.OnlySuccessfulCount Uuid.nil.text := by
  refine exists_run_of_any (fun p : PostgresService ↦ p.AllReturned ∧
    p.roomCount Uuid.nil.text = 1) (by decide) ?_
  intro p hrun hreturned
  exact ⟨hreturned.2, failed_calls_leave_no_trace (by decide) (by decide) hrun hreturned.1 _⟩

/-- A second subscription finds a count and returns; then the LISTEN of the first one fails, and its
rollback deletes the count of both. -/
theorem rollback_undoes_other_call :
    ∃ p, run step (ready []) [.subscribe Uuid.nil.text, .subscribe Uuid.nil.text,
        .execCommand 0 false, .resumeCall 0] = some p ∧ p.AllReturned ∧
      ¬ p.OnlySuccessfulCount Uuid.nil.text :=
  exists_run_of_any (fun p : PostgresService ↦ p.AllReturned ∧
    ¬ p.OnlySuccessfulCount Uuid.nil.text) (by decide) fun _ _ h ↦ h

end PostgresService

end PostgresChat
