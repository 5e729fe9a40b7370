import PostgresChat.Database.Broadcast
import PostgresChat.Database.Steps
import PostgresChat.Lib.Announced

/-!
# Following typing and presence

The triggers on `typing` and `presence` fire after an INSERT or an UPDATE, and there is none that
fires after a DELETE. For an observer of the channels the users of a room are a set in which what is
put in is announced and what is taken out is not, so what they can tell of the set is what
announcements tell in general.
-/

namespace PostgresChat

open Execution Announced

/-! ## The users of a table -/

section Rows

variable {ρ : Type} (user : ρ → UserId) (room : ρ → Uuid)

/-- The users who have a row for the room `r`. -/
def usersIn (rows : List ρ) (r : Uuid) : Set UserId :=
  {u | ∃ row ∈ rows, user row = u ∧ room row = r}

variable {user room}

theorem mem_usersIn {rows : List ρ} {r : Uuid} {v : UserId} :
    v ∈ usersIn user room rows r ↔ ∃ row ∈ rows, user row = v ∧ room row = r := Iff.rfl

/-- `DELETE ... WHERE user_id = $1 AND room_id = $2`. -/
theorem mem_usersIn_delete {rows : List ρ} {u v : UserId} {r r' : Uuid} :
    v ∈ usersIn user room (rows.filter fun p ↦ ¬(user p = u ∧ room p = r')) r ↔
      v ∈ usersIn user room rows r ∧ ¬(v = u ∧ r = r') := by
  simp only [mem_usersIn, List.mem_filter, decide_eq_true_eq]
  constructor
  · rintro ⟨row, ⟨hrow, hnot⟩, rfl, rfl⟩
    exact ⟨⟨row, hrow, rfl, rfl⟩, hnot⟩
  · rintro ⟨⟨row, hrow, rfl, rfl⟩, hnot⟩
    exact ⟨row, ⟨hrow, hnot⟩, rfl, rfl⟩

/-- `INSERT ... ON CONFLICT (user_id, room_id) DO UPDATE`. -/
theorem mem_usersIn_upsert {rows : List ρ} {row : ρ} {u v : UserId} {r r' : Uuid}
    (hu : user row = u) (hr : room row = r') :
    v ∈ usersIn user room ((rows.filter fun p ↦ ¬(user p = u ∧ room p = r')) ++ [row]) r ↔
      v = u ∧ r = r' ∨ v ∈ usersIn user room rows r := by
  have hconcat : v ∈ usersIn user room
      ((rows.filter fun p ↦ ¬(user p = u ∧ room p = r')) ++ [row]) r ↔
      v ∈ usersIn user room (rows.filter fun p ↦ ¬(user p = u ∧ room p = r')) r ∨
        u = v ∧ r' = r := by
    simp only [mem_usersIn, List.mem_append, List.mem_singleton, or_and_right, exists_or,
      exists_eq_left, hu, hr]
  rw [hconcat, mem_usersIn_delete, eq_comm (a := u), eq_comm (a := r')]
  tauto

end Rows

namespace Db

/-- The users who are typing in the room. -/
def typers (db : Db) (r : Uuid) : Set UserId :=
  usersIn TypingRow.userId TypingRow.roomId db.typing r

/-- The users who are present in the room. -/
def present (db : Db) (r : Uuid) : Set UserId :=
  usersIn PresenceRow.userId PresenceRow.roomId db.presence r

/-! ## What a step changes and announces -/

/-- What a step does to those who are typing in the room. -/
def typingChange (r : Uuid) : DbEvent → Option (Change UserId)
  | .query (.upsertTyping u R) => if Uuid.parse R = some r then some (.put u) else none
  | .query (.deleteTyping u R) => if Uuid.parse R = some r then some (.take u) else none
  | _ => none

/-- What a step does to those who are present in the room, a sweep apart. -/
def presenceChange (r : Uuid) : DbEvent → Option (Change UserId)
  | .query (.upsertPresence u R _) => if Uuid.parse R = some r then some (.put u) else none
  | .query (.deletePresence u R) => if Uuid.parse R = some r then some (.take u) else none
  | _ => none

/-- What a step notifies. -/
def notes (db : Db) (e : DbEvent) : List Notification := (db.apply e).elim [] Prod.snd

/-- The row of a notification of `notify_typing` for the room. -/
def typingNote (r : Uuid) : Notification → Option TypingRow
  | .typing row => if row.roomId = r then some row else none
  | _ => none

/-- The row of a notification of `notify_presence` for the room. -/
def presenceNote (r : Uuid) : Notification → Option PresenceRow
  | .presence row => if row.roomId = r then some row else none
  | _ => none

/-- What is notified about typing in the room along a run. -/
def typingNotes (r : Uuid) (db : Db) (es : List DbEvent) : List TypingRow :=
  (trace step notes db es).filterMap (typingNote r)

/-- What is notified about presence in the room along a run. -/
def presenceNotes (r : Uuid) (db : Db) (es : List DbEvent) : List PresenceRow :=
  (trace step notes db es).filterMap (presenceNote r)

variable {db db' : Db} {e : DbEvent} {r : Uuid}

/-- What a statement notifies. -/
def queryNotes (now : ℕ) : Query → List Notification
  | .upsertPresence u R nodeId =>
    (Uuid.parse R).toList.map fun r ↦ .presence ⟨u, r, nodeId, now⟩
  | .upsertTyping u R => (Uuid.parse R).toList.map fun r ↦ .typing ⟨u, r, now⟩
  | _ => []

theorem notes_of_exec {q : Query} {res : QueryResult} {ns : List Notification}
    (h : db.exec q = some (db', res, ns)) : ns = queryNotes db.now q := by
  cases q <;> simp only [exec, Option.bind_eq_bind, Option.bind_eq_some_iff, Option.pure_def,
    Option.some.injEq, Prod.mk.injEq, reduceCtorEq] at h
  case deleteStalePresence => exact h.2.2.symm
  case selectMember => obtain ⟨_, _, -, -, rfl⟩ := h; rfl
  case selectHistory => obtain ⟨_, _, _, _, -, -, rfl⟩ := h; rfl
  case upsertPresence => obtain ⟨r, hr, _, _, -, -, rfl⟩ := h; rw [queryNotes, hr]; rfl
  case deletePresence => obtain ⟨_, _, -, -, rfl⟩ := h; rfl
  case upsertTyping => obtain ⟨r, hr, _, _, -, -, rfl⟩ := h; rw [queryNotes, hr]; rfl
  case deleteTyping => obtain ⟨_, _, -, -, rfl⟩ := h; rfl
  case insertMember => obtain ⟨_, _, _, _, -, -, rfl⟩ := h; rfl
  case deleteMember => obtain ⟨_, _, -, -, rfl⟩ := h; rfl

theorem notes_query {q : Query} (h : db.step (.query q) = some db') :
    db.notes (.query q) = queryNotes db.now q := by
  obtain ⟨⟨_, ns⟩, happly, -⟩ := Option.map_eq_some_iff.mp h
  obtain ⟨⟨db₁, res, ns₁⟩, hexec, hpair⟩ := Option.map_eq_some_iff.mp happly
  rw [notes, happly, Option.elim_some]
  exact (Prod.mk.inj hpair).2 ▸ notes_of_exec hexec

/-- Other steps notify messages only. -/
theorem notes_of_not_query (he : ∀ q, e ≠ .query q) {note : Notification}
    (h : note ∈ db.notes e) : ∃ row, note = .message row := by
  rw [notes] at h
  cases happly : db.apply e with
  | none =>
    rw [happly] at h
    cases h
  | some res =>
    rw [happly, Option.elim_some] at h
    rcases res with ⟨db₁, ns⟩
    cases e with
    | query q => exact absurd rfl (he q)
    | tick =>
      cases happly
      cases h
    | createUser id username =>
      simp only [apply, Option.ite_none_left_eq_some, Option.some.injEq, Prod.mk.injEq] at happly
      obtain ⟨-, -, rfl⟩ := happly
      cases h
    | createRoom id =>
      simp only [apply, Option.ite_none_left_eq_some, Option.some.injEq, Prod.mk.injEq] at happly
      obtain ⟨-, -, rfl⟩ := happly
      cases h
    | beginInsert roomId userId content =>
      cases happly
      cases h
    | assignSequence t =>
      simp only [apply, Option.bind_eq_bind, Option.bind_eq_some_iff] at happly
      obtain ⟨ins, -, -, -, happly⟩ := happly
      cases happly
      cases h
    | abort t =>
      simp only [apply, Option.bind_eq_bind, Option.bind_eq_some_iff] at happly
      obtain ⟨ins, -, -, -, happly⟩ := happly
      cases happly
      cases h
    | setUsername t =>
      simp only [apply, Option.bind_eq_bind, Option.bind_eq_some_iff] at happly
      obtain ⟨ins, -, happly⟩ := happly
      split at happly <;> cases happly
      cases h
    | store t =>
      simp only [apply, Option.bind_eq_bind, Option.bind_eq_some_iff] at happly
      obtain ⟨ins, -, happly⟩ := happly
      split at happly
      · simp only [Option.bind_eq_some_iff] at happly
        obtain ⟨-, -, happly⟩ := happly
        cases happly
        cases h
      · cases happly
    | commit t =>
      simp only [apply, Option.bind_eq_bind, Option.bind_eq_some_iff] at happly
      obtain ⟨ins, -, happly⟩ := happly
      split at happly <;> cases happly
      exact ⟨_, List.mem_singleton.mp h⟩

/-- A step that is no statement announces nobody. -/
theorem filterMap_notes_of_not_query {ω : Type} {note : Notification → Option ω}
    (hnote : ∀ row, note (.message row) = none) (he : ∀ q, e ≠ .query q) :
    (db.notes e).filterMap note = [] := by
  refine List.filterMap_eq_nil_iff.mpr fun n hn ↦ ?_
  obtain ⟨row, rfl⟩ := notes_of_not_query he hn
  exact hnote row

section Change

variable {s : Set UserId} {R : RoomId} {r' : Uuid} {u v : UserId}

/-- An upsert, as a change of the users of the room. -/
theorem mem_elim_put (parses : Uuid.parse R = some r') :
    v ∈ (if Uuid.parse R = some r then some (Change.put u) else none).elim s (Change.apply s) ↔
      v = u ∧ r = r' ∨ v ∈ s := by
  rw [parses]
  by_cases h : r' = r
  · rw [if_pos (congrArg some h), Option.elim_some, Change.apply, Set.mem_insert_iff,
      and_iff_left h.symm]
  · rw [if_neg fun heq ↦ h (Option.some.inj heq), Option.elim_none, or_iff_right]
    exact fun heq ↦ h heq.2.symm

/-- A DELETE, as a change of the users of the room. -/
theorem mem_elim_take (parses : Uuid.parse R = some r') :
    v ∈ (if Uuid.parse R = some r then some (Change.take u) else none).elim s (Change.apply s) ↔
      v ∈ s ∧ ¬(v = u ∧ r = r') := by
  rw [parses]
  by_cases h : r' = r
  · rw [if_pos (congrArg some h), Option.elim_some, Change.apply, Set.mem_sdiff,
      Set.mem_singleton_iff, and_iff_left h.symm]
  · rw [if_neg fun heq ↦ h (Option.some.inj heq), Option.elim_none, and_iff_left]
    exact fun heq ↦ h heq.2.symm

end Change

theorem typers_of_step (h : db.step e = some db') :
    db'.typers r = (typingChange r e).elim (db.typers r) (Change.apply (db.typers r)) := by
  cases e with
  | query q =>
    cases ran_of_step_query h with
    | upsertTyping R u r' parses =>
      exact Set.ext fun v ↦ (mem_usersIn_upsert (by rfl) (by rfl)).trans (mem_elim_put parses).symm
    | deleteTyping R u r' parses =>
      exact Set.ext fun v ↦ mem_usersIn_delete.trans (mem_elim_take parses).symm
    | _ => rfl
  | _ =>
    have htyping := (tables_of_did (fun _ ↦ DbEvent.noConfusion) (did_of_step h)).2.1
    rw [typers, htyping]
    rfl

theorem present_of_step (hsweep : e ≠ .query .deleteStalePresence) (h : db.step e = some db') :
    db'.present r = (presenceChange r e).elim (db.present r) (Change.apply (db.present r)) := by
  cases e with
  | query q =>
    cases ran_of_step_query h with
    | upsertPresence R u nodeId r' parses =>
      exact Set.ext fun v ↦ (mem_usersIn_upsert (by rfl) (by rfl)).trans (mem_elim_put parses).symm
    | deletePresence R u r' parses =>
      exact Set.ext fun v ↦ mem_usersIn_delete.trans (mem_elim_take parses).symm
    | deleteStalePresence => exact absurd rfl hsweep
    | _ => rfl
  | _ =>
    have hpresence := (tables_of_did (fun _ ↦ DbEvent.noConfusion) (did_of_step h)).1
    rw [present, hpresence]
    rfl

/-- What is notified about typing are the users put in. -/
theorem typingNotes_of_step (h : db.step e = some db') :
    ((db.notes e).filterMap (typingNote r)).map TypingRow.userId =
      ((typingChange r e).bind Change.announces).toList := by
  cases e with
  | query q =>
    rw [notes_query h]
    cases ran_of_step_query h with
    | upsertTyping R u r' parses =>
      simp only [queryNotes, typingChange, parses, Option.some.injEq]
      by_cases hr : r' = r <;> simp [hr, typingNote, Change.announces]
    | deleteTyping R u r' parses =>
      simp only [queryNotes, typingChange]
      split <;> rfl
    | upsertPresence R u nodeId r' parses =>
      rw [queryNotes, parses]
      rfl
    | _ => rfl
  | _ =>
    rw [filterMap_notes_of_not_query (fun _ ↦ rfl) fun _ ↦ DbEvent.noConfusion]
    rfl

/-- What is notified about presence are the users put in. -/
theorem presenceNotes_of_step (h : db.step e = some db') :
    ((db.notes e).filterMap (presenceNote r)).map PresenceRow.userId =
      ((presenceChange r e).bind Change.announces).toList := by
  cases e with
  | query q =>
    rw [notes_query h]
    cases ran_of_step_query h with
    | upsertPresence R u nodeId r' parses =>
      simp only [queryNotes, presenceChange, parses, Option.some.injEq]
      by_cases hr : r' = r <;> simp [hr, presenceNote, Change.announces]
    | deletePresence R u r' parses =>
      simp only [queryNotes, presenceChange]
      split <;> rfl
    | upsertTyping R u r' parses =>
      rw [queryNotes, parses]
      rfl
    | _ => rfl
  | _ =>
    rw [filterMap_notes_of_not_query (fun _ ↦ rfl) fun _ ↦ DbEvent.noConfusion]
    rfl

/-! ## Two runs -/

section Run

variable {es : List DbEvent} {change : DbEvent → Option (Change UserId)}

/-- The users after a run. -/
theorem users_of_run {users : Db → Set UserId} {G : DbEvent → Prop}
    (hchange : ∀ {db e db'}, G e → step db e = some db' →
      users db' = (change e).elim (users db) (Change.apply (users db)))
    (hG : ∀ e ∈ es, G e) (hrun : run step db es = some db') :
    users db' = outcome (users db) (es.filterMap change) := by
  induction es generalizing db with
  | nil =>
    cases hrun
    rfl
  | cons e es ih =>
    obtain ⟨db₁, hstep, hrest⟩ := run_cons_eq_some.mp hrun
    rw [List.forall_mem_cons] at hG
    rw [ih hG.2 hrest, hchange hG.1 hstep, List.filterMap_cons]
    cases change e <;> rfl

/-- The users that are notified along a run. -/
theorem announced_of_run {ω : Type} {note : Notification → Option ω} {user : ω → UserId}
    (hnotes : ∀ {db e db'}, step db e = some db' → ((notes db e).filterMap note).map user =
      ((change e).bind Change.announces).toList)
    (hrun : run step db es = some db') :
    ((trace step notes db es).filterMap note).map user = announced (es.filterMap change) := by
  induction es generalizing db with
  | nil => rfl
  | cons e es ih =>
    obtain ⟨db₁, hstep, hrest⟩ := run_cons_eq_some.mp hrun
    rw [trace_cons_of_eq_some hstep, List.filterMap_append, List.map_append, hnotes hstep, ih hrest,
      List.filterMap_cons]
    cases hchange : change e with
    | none => rfl
    | some c => cases c <;> rfl

end Run

/-- The operations of a run on typing in the room, in order. -/
def typingChanges (r : Uuid) (es : List DbEvent) : List (Change UserId) :=
  es.filterMap (typingChange r)

/-- The operations of a run on presence in the room, in order. -/
def presenceChanges (r : Uuid) (es : List DbEvent) : List (Change UserId) :=
  es.filterMap (presenceChange r)

/-- Of the users with a row at the start or a start among their operations, the same end with a
stop. -/
def SameStopped (users : Set UserId) (cs cs' : List (Change UserId)) : Prop :=
  ∀ u, u ∈ users ∨ u ∈ announced cs → (TakenLast u cs ↔ TakenLast u cs')

/-- **What observers can follow.** Two runs from the same tables that notify the same about typing
in a room end with the same users typing there exactly when the same of them have stopped last; and
likewise for presence, as long as nobody sweeps. -/
theorem followed_iff {d d' : Db} {es es' : List DbEvent} (hrun : run step db es = some d)
    (hrun' : run step db es' = some d') (r : Uuid) :
    (typingNotes r db es = typingNotes r db es' → (d.typers r = d'.typers r ↔
      SameStopped (db.typers r) (typingChanges r es) (typingChanges r es'))) ∧
    ((∀ e ∈ es ++ es', e ≠ .query .deleteStalePresence) →
      presenceNotes r db es = presenceNotes r db es' → (d.present r = d'.present r ↔
        SameStopped (db.present r) (presenceChanges r es) (presenceChanges r es'))) := by
  constructor
  · intro hnotes
    have hannounced := congrArg (List.map TypingRow.userId) hnotes
    rw [typingNotes, typingNotes, announced_of_run typingNotes_of_step hrun,
      announced_of_run typingNotes_of_step hrun'] at hannounced
    have husers : ∀ {es d}, run step db es = some d →
        d.typers r = outcome (db.typers r) (typingChanges r es) := fun hrun ↦
      users_of_run (G := fun _ ↦ True) (fun _ ↦ typers_of_step) (fun _ _ ↦ trivial) hrun
    rw [husers hrun, husers hrun']
    exact outcome_eq_iff hannounced
  · intro hsweep hnotes
    rw [List.forall_mem_append] at hsweep
    have hannounced := congrArg (List.map PresenceRow.userId) hnotes
    rw [presenceNotes, presenceNotes, announced_of_run presenceNotes_of_step hrun,
      announced_of_run presenceNotes_of_step hrun'] at hannounced
    rw [users_of_run present_of_step hsweep.1 hrun, users_of_run present_of_step hsweep.2 hrun']
    exact outcome_eq_iff hannounced

/-- `typing_start` of the member, as the handler commits it. -/
def typingStart : List DbEvent :=
  [.query (.selectMember Uuid.nil.text [0x61]), .query (.upsertTyping [0x61] Uuid.nil.text)]

/-- `typing_stop`. -/
def typingStop : List DbEvent := [.query (.deleteTyping [0x61] Uuid.nil.text)]

/-- `join_room` on a node with an empty name. -/
def joinRoom : List DbEvent :=
  [.query (.selectMember Uuid.nil.text [0x61]), .query (.upsertPresence [0x61] Uuid.nil.text [])]

/-- `leave_room`. -/
def leaveRoom : List DbEvent := [.query (.deletePresence [0x61] Uuid.nil.text)]

/-- A stop before the start changes nothing, and is not announced. -/
theorem followed_iff_stop_first : ∃ d d',
    run step oneMember typingStart = some d ∧
    run step oneMember (typingStop ++ typingStart) = some d' ∧ d.typers .nil = d'.typers .nil := by
  obtain ⟨d, hrun, -⟩ : ∃ d, run step oneMember typingStart = some d ∧ d.typing ≠ [] :=
    exists_run_of_any (fun d ↦ d.typing ≠ []) (by decide) fun _ _ h ↦ h
  obtain ⟨d', hrun', -⟩ : ∃ d, run step oneMember (typingStop ++ typingStart) = some d ∧
      d.typing ≠ [] := exists_run_of_any (fun d ↦ d.typing ≠ []) (by decide) fun _ _ h ↦ h
  refine ⟨d, d', hrun, hrun', ((followed_iff hrun hrun' .nil).1 (by decide)).mpr ?_⟩
  rintro u (⟨row, hrow, -⟩ | hu)
  · cases hrow
  · obtain rfl : u = [0x61] := List.mem_singleton.mp hu
    exact iff_of_false (by decide) (by decide)

/-- A stop that deletes the row is not announced either: somebody is typing after the start, and
nobody after the start and the stop, but both runs notify the same. So it is with presence. -/
theorem stop_not_announced :
    (¬ ∀ (db d d' : Db) (es es' : List DbEvent) (r : Uuid), run step db es = some d →
      run step db es' = some d' → typingNotes r db es = typingNotes r db es' →
      d.typers r = d'.typers r) ∧
    ¬ ∀ (db d d' : Db) (es es' : List DbEvent) (r : Uuid), run step db es = some d →
      run step db es' = some d' → presenceNotes r db es = presenceNotes r db es' →
      d.present r = d'.present r := by
  constructor
  · intro hall
    obtain ⟨d, hrun, hd⟩ : ∃ d, run step oneMember typingStart = some d ∧
        d.typing = [⟨[0x61], .nil, 0⟩] :=
      exists_run_of_any (fun d ↦ d.typing = [⟨[0x61], .nil, 0⟩]) (by decide) fun _ _ h ↦ h
    obtain ⟨d', hrun', hd'⟩ : ∃ d, run step oneMember (typingStart ++ typingStop) = some d ∧
        d.typing = [] := exists_run_of_any (fun d ↦ d.typing = []) (by decide) fun _ _ h ↦ h
    have hsame := hall _ _ _ _ _ .nil hrun hrun' (by decide)
    obtain ⟨row, hrow, -⟩ : [0x61] ∈ d'.typers .nil := by
      rw [← hsame, typers, hd]
      exact ⟨_, List.mem_singleton_self _, rfl, rfl⟩
    rw [hd'] at hrow
    cases hrow
  · intro hall
    obtain ⟨d, hrun, hd⟩ : ∃ d, run step oneMember joinRoom = some d ∧
        d.presence = [⟨[0x61], .nil, [], 0⟩] :=
      exists_run_of_any (fun d ↦ d.presence = [⟨[0x61], .nil, [], 0⟩]) (by decide) fun _ _ h ↦ h
    obtain ⟨d', hrun', hd'⟩ : ∃ d, run step oneMember (joinRoom ++ leaveRoom) = some d ∧
        d.presence = [] := exists_run_of_any (fun d ↦ d.presence = []) (by decide) fun _ _ h ↦ h
    have hsame := hall _ _ _ _ _ .nil hrun hrun' (by decide)
    obtain ⟨row, hrow, -⟩ : [0x61] ∈ d'.present .nil := by
      rw [← hsame, present, hd]
      exact ⟨_, List.mem_singleton_self _, rfl, rfl⟩
    rw [hd'] at hrow
    cases hrow

end Db

end PostgresChat
