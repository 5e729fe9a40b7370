import PostgresChat.Database.Messages

/-!
# What a step of the database does

Each statement and each step once, as an inductive predicate whose constructors give the next state
and the guards that were met (`Ran`, `Moves`, `Did`). From these follow what a step does to users
and rooms, which go on existing, so that foreign keys keep holding, and to one INSERT into
`messages`, which moves on by a stage or stays where it is.
-/

namespace PostgresChat

open Execution

/-- The row an INSERT stores next. -/
def Insert.toStore (ins : Insert) : Option MessageRow :=
  match ins.stage with
  | .named (some seq) (some username) => some (ins.row seq username)
  | _ => none

/-- The row of `room_members` a step inserts, unless it is there. -/
def DbEvent.memberInserted : DbEvent → Option (Uuid × UserId)
  | .query (.insertMember roomId userId) => (Uuid.parse roomId).map (·, userId)
  | _ => none

/-- The row of `room_members` a step deletes, if it is there. -/
def DbEvent.memberDeleted : DbEvent → Option (Uuid × UserId)
  | .query (.deleteMember roomId userId) => (Uuid.parse roomId).map (·, userId)
  | _ => none

namespace Db

/-- An INSERT that begins. -/
def newInsert (db : Db) (r : Uuid) (u : UserId) (content : JsString) : Insert :=
  ⟨db.nextMessageId, r, u, content, db.now, .begun⟩

/-- One more INSERT has begun. -/
def addInsert (db : Db) (ins : Insert) : Db :=
  { db with inserts := db.inserts ++ [ins], nextMessageId := db.nextMessageId + 1 }

/-- The rows of `presence` but that of `u` in `r`. -/
def otherPresence (db : Db) (r : Uuid) (u : UserId) : List PresenceRow :=
  db.presence.filter fun p ↦ ¬(p.userId = u ∧ p.roomId = r)

/-- The rows of `typing` but that of `u` in `r`. -/
def otherTyping (db : Db) (r : Uuid) (u : UserId) : List TypingRow :=
  db.typing.filter fun p ↦ ¬(p.userId = u ∧ p.roomId = r)

variable {db db' : Db} {r : Uuid} {u : UserId} {t : ℕ} {ins : Insert}

/-! ## Inversion -/

/-- What a statement that is run has done. -/
inductive Ran (db : Db) : Query → Db → Prop
  | selectMember (R : RoomId) (u : UserId) : Ran db (.selectMember R u) db
  | selectHistory (R : RoomId) (lastSeenSeq : JsNumber) : Ran db (.selectHistory R lastSeenSeq) db
  | upsertPresence (R : RoomId) (u : UserId) (nodeId : JsString) (r : Uuid)
      (parses : Uuid.parse R = some r) (refs : db.hasRefs r u = true) :
    Ran db (.upsertPresence u R nodeId)
      { db with presence := db.otherPresence r u ++ [⟨u, r, nodeId, db.now⟩] }
  | deletePresence (R : RoomId) (u : UserId) (r : Uuid) (parses : Uuid.parse R = some r) :
    Ran db (.deletePresence u R) { db with presence := db.otherPresence r u }
  | deleteStalePresence : Ran db .deleteStalePresence
      { db with presence := db.presence.filter fun p ↦ ¬(p.lastSeen + 60000 < db.now) }
  | upsertTyping (R : RoomId) (u : UserId) (r : Uuid) (parses : Uuid.parse R = some r)
      (refs : db.hasRefs r u = true) :
    Ran db (.upsertTyping u R) { db with typing := db.otherTyping r u ++ [⟨u, r, db.now⟩] }
  | deleteTyping (R : RoomId) (u : UserId) (r : Uuid) (parses : Uuid.parse R = some r) :
    Ran db (.deleteTyping u R) { db with typing := db.otherTyping r u }
  | insertMember (R : RoomId) (u : UserId) (r : Uuid) (parses : Uuid.parse R = some r)
      (refs : db.hasRefs r u = true) :
    Ran db (.insertMember R u) { db with roomMembers := db.roomMembers.insert (r, u) }
  | deleteMember (R : RoomId) (u : UserId) (r : Uuid) (parses : Uuid.parse R = some r) :
    Ran db (.deleteMember R u)
      { db with roomMembers := db.roomMembers.filter fun p ↦ p ≠ (r, u) }

theorem ran_of_exec {q : Query} {result : QueryResult} {notes : List Notification}
    (h : db.exec q = some (db', result, notes)) : Ran db q db' := by
  cases q <;> simp only [exec, Option.bind_eq_bind, Option.bind_eq_some_iff, Option.pure_def,
    Option.some.injEq, Prod.mk.injEq, Option.guard_eq_some', reduceCtorEq] at h
  case selectMember => obtain ⟨_, _, rfl, -⟩ := h; exact .selectMember _ _
  case selectHistory => obtain ⟨_, _, _, _, rfl, -⟩ := h; exact .selectHistory _ _
  case upsertPresence =>
    obtain ⟨r, hr, _, hrefs, rfl, -⟩ := h
    exact .upsertPresence _ _ _ r hr hrefs
  case deletePresence => obtain ⟨r, hr, rfl, -⟩ := h; exact .deletePresence _ _ r hr
  case deleteStalePresence => obtain ⟨rfl, -⟩ := h; exact .deleteStalePresence
  case upsertTyping => obtain ⟨r, hr, _, hrefs, rfl, -⟩ := h; exact .upsertTyping _ _ r hr hrefs
  case deleteTyping => obtain ⟨r, hr, rfl, -⟩ := h; exact .deleteTyping _ _ r hr
  case insertMember => obtain ⟨r, hr, _, hrefs, rfl, -⟩ := h; exact .insertMember _ _ r hr hrefs
  case deleteMember => obtain ⟨r, hr, rfl, -⟩ := h; exact .deleteMember _ _ r hr

theorem ran_of_step_query {q : Query} (h : db.step (.query q) = some db') : Ran db q db' := by
  obtain ⟨⟨_, ns⟩, happly, rfl⟩ := Option.map_eq_some_iff.mp h
  obtain ⟨⟨db₁, res, ns₁⟩, hexec, hpair⟩ := Option.map_eq_some_iff.mp happly
  exact (Prod.mk.inj hpair).1 ▸ ran_of_exec hexec

/-- How an INSERT moves in a step. -/
inductive Moves (db : Db) (e : DbEvent) (t : ℕ) (ins : Insert) : Insert → Prop
  | stays : Moves db e t ins ins
  | assigned (stage : ins.stage = .begun) :
    Moves db e t ins { ins with stage := .sequenced (db.roomSequences ins.roomId) }
  | named (seq : Option ℕ) (stage : ins.stage = .sequenced seq) :
    Moves db e t ins { ins with stage := .named seq (db.username ins.userId) }
  | stored (row : MessageRow) (event : e = .store t) (stage : ins.toStore = some row) :
    Moves db e t ins { ins with stage := .stored row }
  | ended (stage : InsertStage) (ended : stage.inFlight = false)
      (flight : ins.stage.inFlight = true)
      (row : ∀ row, stage = .committed row → e = .commit t ∧ ins.stage = .stored row) :
    Moves db e t ins { ins with stage := stage }

/-- An INSERT keeps its parameters. -/
theorem Moves.same {e : DbEvent} {ins' : Insert} (h : Moves db e t ins ins') :
    ins'.userId = ins.userId ∧ ins'.roomId = ins.roomId := by
  cases h <;> exact ⟨rfl, rfl⟩

/-- What a step has done. -/
inductive Did (db : Db) : DbEvent → Db → Prop
  | tick (ms : ℕ) : Did db (.tick ms) { db with now := db.now + ms }
  | createUser (id : UserId) (username : JsString) :
    Did db (.createUser id username) { db with users := db.users ++ [(id, username)] }
  | createRoom (id : Uuid) : Did db (.createRoom id) { db with
      rooms := db.rooms ++ [id]
      roomSequences := Function.update db.roomSequences id (some ((db.roomSequences id).getD 1)) }
  | query (q : Query) (db' : Db) (ran : Ran db q db') : Did db (.query q) db'
  | beginInsert (r : Uuid) (u : UserId) (content : JsString) :
    Did db (.beginInsert r u content) (db.addInsert (db.newInsert r u content))
  | moved (e : DbEvent) (t : ℕ) (ins ins' : Insert) (get : db.inserts[t]? = some ins)
      (moves : Moves db e t ins ins') (event : e ≠ .commit t) :
    Did db e { db with inserts := db.inserts.set t ins' }
  | commit (t : ℕ) (ins : Insert) (row : MessageRow) (get : db.inserts[t]? = some ins)
      (stage : ins.stage = .stored row) :
    Did db (.commit t) { db.setStage t ins (.committed row) with
      messages := db.messages ++ [row]
      roomSequences := Function.update db.roomSequences row.roomId (some (row.seq + 1)) }

theorem did_of_step {e : DbEvent} (h : db.step e = some db') : Did db e db' := by
  obtain ⟨⟨_, notes⟩, happly, rfl⟩ := Option.map_eq_some_iff.mp h
  cases e with
  | createUser id username =>
    simp only [apply, Option.ite_none_left_eq_some, Option.some.injEq, Prod.mk.injEq] at happly
    obtain ⟨-, rfl, -⟩ := happly
    exact .createUser id username
  | createRoom id =>
    simp only [apply, Option.ite_none_left_eq_some, Option.some.injEq, Prod.mk.injEq] at happly
    obtain ⟨-, rfl, -⟩ := happly
    exact .createRoom id
  | query q =>
    simp only [apply, Option.map_eq_some_iff, Prod.mk.injEq] at happly
    obtain ⟨⟨db₁, result, notes₁⟩, hexec, rfl, -⟩ := happly
    exact .query q _ (ran_of_exec hexec)
  | tick ms =>
    cases happly
    exact .tick ms
  | beginInsert roomId userId content =>
    cases happly
    exact .beginInsert roomId userId content
  | assignSequence t =>
    simp only [apply, Option.bind_eq_bind, Option.bind_eq_some_iff, Option.guard_eq_some'] at happly
    obtain ⟨ins, hget, -, ⟨hstage, -⟩, happly⟩ := happly
    cases happly
    exact .moved _ t ins _ hget (.assigned hstage) (by rintro ⟨⟩)
  | abort t =>
    simp only [apply, Option.bind_eq_bind, Option.bind_eq_some_iff, Option.guard_eq_some'] at happly
    obtain ⟨ins, hget, -, hflight, happly⟩ := happly
    cases happly
    exact .moved _ t ins _ hget (.ended _ rfl hflight (by rintro _ ⟨⟩)) (by rintro ⟨⟩)
  | setUsername t =>
    simp only [apply, Option.bind_eq_bind, Option.bind_eq_some_iff] at happly
    obtain ⟨ins, hget, happly⟩ := happly
    split at happly
    · rename_i seq hstage
      cases happly
      exact .moved _ t ins _ hget (.named seq hstage) (by rintro ⟨⟩)
    · cases happly
  | store t =>
    simp only [apply, Option.bind_eq_bind, Option.bind_eq_some_iff] at happly
    obtain ⟨ins, hget, happly⟩ := happly
    split at happly
    · rename_i seq username hstage
      simp only [Option.bind_eq_some_iff] at happly
      obtain ⟨-, -, happly⟩ := happly
      cases happly
      have htoStore : ins.toStore = some (ins.row seq username) := by rw [Insert.toStore, hstage]
      exact .moved _ t ins _ hget (.stored _ rfl htoStore) (by rintro ⟨⟩)
    · cases happly
  | commit t =>
    simp only [apply, Option.bind_eq_bind, Option.bind_eq_some_iff] at happly
    obtain ⟨ins, hget, happly⟩ := happly
    split at happly
    · rename_i row hstage
      cases happly
      exact .commit t ins row hget hstage
    · cases happly

/-- The database moves on without a single statement. -/
theorem tables_of_did {d : DbEvent} (hd : ∀ q, d ≠ .query q) (h : Did db d db') :
    db'.presence = db.presence ∧ db'.typing = db.typing ∧ db'.roomMembers = db.roomMembers := by
  cases h with
  | query q => exact absurd rfl (hd q)
  | _ => exact ⟨rfl, rfl, rfl⟩

/-- A user becomes a member by the INSERT. -/
theorem member_of_step {d : DbEvent} (h : db.step d = some db')
    (hmember : (r, u) ∈ db'.roomMembers) :
    (r, u) ∈ db.roomMembers ∨ d.memberInserted = some (r, u) := by
  cases did_of_step h with
  | query q _ ran =>
    cases ran with
    | insertMember R u' r' parses =>
      rcases List.mem_insert_iff.mp hmember with heq | hmember
      · cases heq
        exact Or.inr (by rw [DbEvent.memberInserted, parses]; rfl)
      · exact Or.inl hmember
    | deleteMember => exact Or.inl (List.mem_of_mem_filter hmember)
    | _ => exact Or.inl hmember
  | _ => exact Or.inl hmember

theorem not_member_of_delete {d : DbEvent} (hd : d.memberDeleted = some (r, u))
    (h : db.step d = some db') : (r, u) ∉ db'.roomMembers := by
  rw [DbEvent.memberDeleted.eq_def] at hd
  split at hd
  · cases ran_of_step_query h with
    | deleteMember _ _ r' parses =>
      rw [parses] at hd
      cases hd
      exact fun hmember ↦ of_decide_eq_true (List.mem_filter.mp hmember).2 rfl
  · cases hd

/-! ## Existing rooms and users -/

/-- What a step keeps of users, rooms and members: the foreign keys of a membership hold when it
begins, and nothing is deleted that they refer to. -/
structure KeepsRefs (db db' : Db) : Prop where
  users : ∃ l, db'.users = db.users ++ l
  rooms : ∀ r ∈ db.rooms, r ∈ db'.rooms
  members : ∀ p ∈ db'.roomMembers, p ∈ db.roomMembers ∨ db.hasRefs p.1 p.2 = true

theorem keepsRefs_of_eq (husers : db'.users = db.users) (hrooms : db'.rooms = db.rooms)
    (hmembers : db'.roomMembers = db.roomMembers) : KeepsRefs db db' :=
  ⟨⟨[], by rw [husers, List.append_nil]⟩, fun _ hr ↦ hrooms ▸ hr, fun _ hp ↦ Or.inl (hmembers ▸ hp)⟩

theorem keepsRefs_of_ran {q : Query} (h : Ran db q db') : KeepsRefs db db' := by
  cases h with
  | insertMember _ _ _ _ refs =>
    refine ⟨⟨[], (List.append_nil _).symm⟩, fun _ ↦ id, fun p hp ↦ ?_⟩
    rcases List.mem_insert_iff.mp hp with rfl | hp
    · exact Or.inr refs
    · exact Or.inl hp
  | deleteMember =>
    exact ⟨⟨[], (List.append_nil _).symm⟩, fun _ ↦ id,
      fun _ hp ↦ Or.inl (List.mem_of_mem_filter hp)⟩
  | _ => exact keepsRefs_of_eq rfl rfl rfl

theorem keepsRefs_of_step {e : DbEvent} (h : db.step e = some db') : KeepsRefs db db' := by
  cases did_of_step h with
  | query q _ ran => exact keepsRefs_of_ran ran
  | createUser => exact ⟨⟨_, rfl⟩, fun _ ↦ id, fun _ ↦ Or.inl⟩
  | createRoom =>
    exact ⟨⟨[], (List.append_nil _).symm⟩, fun _ ↦ List.mem_append_left _, fun _ ↦ Or.inl⟩
  | _ => exact keepsRefs_of_eq rfl rfl rfl

theorem hasRefs_iff : db.hasRefs r u = true ↔ r ∈ db.rooms ∧ u ∈ db.users.map Prod.fst := by
  rw [hasRefs, Bool.and_eq_true, decide_eq_true_eq, List.contains_iff_mem]

theorem KeepsRefs.hasRefs (h : KeepsRefs db db') (hrefs : db.hasRefs r u = true) :
    db'.hasRefs r u = true := by
  obtain ⟨hr, hu⟩ := hasRefs_iff.mp hrefs
  obtain ⟨l, hl⟩ := h.users
  refine hasRefs_iff.mpr ⟨h.rooms r hr, ?_⟩
  rw [hl, List.map_append]
  exact List.mem_append_left _ hu

/-- The foreign keys of every membership hold. -/
theorem hasRefs_of_mem {es : List DbEvent} (hrun : run step {} es = some db)
    (hmember : (r, u) ∈ db.roomMembers) : db.hasRefs r u = true := by
  refine run_invariant (fun db : Db ↦ ∀ p ∈ db.roomMembers, db.hasRefs p.1 p.2 = true) ?_
    (by rintro _ ⟨⟩) hrun (r, u) hmember
  intro db e db' h hstep p hp
  have hkeeps := keepsRefs_of_step hstep
  exact hkeeps.hasRefs ((hkeeps.members p hp).elim (h p) id)

theorem exists_username (h : db.hasRefs r u = true) :
    ∃ username, db.username u = some username := by
  obtain ⟨row, hrow, hu⟩ := List.mem_map.mp (hasRefs_iff.mp h).2
  have hsome : (db.users.find? fun row ↦ row.1 = u).isSome = true :=
    List.find?_isSome.mpr ⟨row, hrow, decide_eq_true hu⟩
  obtain ⟨row', hrow'⟩ := Option.isSome_iff_exists.mp hsome
  exact ⟨row'.2, by rw [username, hrow', Option.map_some]⟩

/-! ## What becomes of an INSERT -/

/-- What a step does to the INSERT statements: one of them moves, or one begins. -/
theorem inserts_of_step {e : DbEvent} (h : db.step e = some db') :
    db'.inserts = db.inserts ∨
      (∃ t ins ins', db.inserts[t]? = some ins ∧ Moves db e t ins ins' ∧
        db'.inserts = db.inserts.set t ins') ∨
      ∃ r u content, e = .beginInsert r u content ∧
        db'.inserts = db.inserts ++ [db.newInsert r u content] := by
  cases did_of_step h with
  | query q _ ran =>
    left
    cases ran <;> rfl
  | beginInsert r u content => exact Or.inr (Or.inr ⟨_, _, _, rfl, rfl⟩)
  | moved _ t ins ins' get moves => exact Or.inr (Or.inl ⟨t, ins, ins', get, moves, rfl⟩)
  | commit t ins row get stage =>
    refine Or.inr (Or.inl ⟨t, ins, _, get, .ended (.committed row) rfl ?_ ?_, rfl⟩)
    · rw [stage]
      rfl
    · rintro _ ⟨⟩
      exact ⟨rfl, stage⟩
  | tick => exact Or.inl rfl
  | createUser => exact Or.inl rfl
  | createRoom => exact Or.inl rfl

theorem moves_of_step {e : DbEvent} (h : db.step e = some db') (hget : db.inserts[t]? = some ins) :
    ∃ ins', db'.inserts[t]? = some ins' ∧ Moves db e t ins ins' := by
  rcases inserts_of_step h with hsame | ⟨t₀, ins₀, ins', hget₀, hmoves, hset⟩ | ⟨_, _, _, -, hbegun⟩
  · exact ⟨ins, hsame ▸ hget, .stays⟩
  · by_cases ht : t₀ = t
    · subst ht
      obtain rfl := Option.some.inj (hget₀.symm.trans hget)
      refine ⟨ins', ?_, hmoves⟩
      rw [hset, List.getElem?_set_self (List.getElem?_eq_some_iff.mp hget).1]
    · exact ⟨ins, by rw [hset, List.getElem?_set_ne ht, hget], .stays⟩
  · refine ⟨ins, ?_, .stays⟩
    rw [hbegun, List.getElem?_append_left (List.getElem?_eq_some_iff.mp hget).1, hget]

/-- An INSERT has moved, or has just begun. -/
theorem insert_of_step {e : DbEvent} (h : db.step e = some db') {ins' : Insert}
    (hget' : db'.inserts[t]? = some ins') :
    (∃ ins, db.inserts[t]? = some ins ∧ Moves db e t ins ins') ∨
      ∃ r u content, e = .beginInsert r u content ∧ t = db.inserts.length ∧
        ins' = db.newInsert r u content := by
  cases hget : db.inserts[t]? with
  | some ins =>
    obtain ⟨ins'', hget'', hmoves⟩ := moves_of_step h hget
    obtain rfl := Option.some.inj (hget''.symm.trans hget')
    exact Or.inl ⟨ins, rfl, hmoves⟩
  | none =>
    rcases inserts_of_step h with hsame | ⟨t₀, ins₀, ins₁, -, -, hset⟩ | ⟨r, u, content, he, hbegun⟩
    · rw [hsame, hget] at hget'
      cases hget'
    · have hlength := (List.getElem?_eq_some_iff.mp hget').1
      rw [hset, List.length_set] at hlength
      exact absurd hlength (Nat.not_lt.mpr (List.getElem?_eq_none_iff.mp hget))
    · rw [hbegun, List.getElem?_append_right (List.getElem?_eq_none_iff.mp hget),
        List.getElem?_singleton, Option.ite_none_right_eq_some, Option.some.injEq] at hget'
      have := List.getElem?_eq_none_iff.mp hget
      exact Or.inr ⟨r, u, content, he, by omega, hget'.2.symm⟩

end Db

end PostgresChat
