import PostgresChat.Database.Tables
import PostgresChat.Lib.Execution
import PostgresChat.Lib.Lists

/-!
# The per-room sequence

Every message of a room gets its `seq` from the room's row of `room_sequences`, through the trigger
`assign_room_sequence`. The steps here are those PostgreSQL takes for INSERT statements on
`messages` at READ COMMITTED: the trigger's UPDATE waits until no other open transaction holds the
row and then reads the latest committed `next_seq`; the lock is kept to the end of the transaction;
an abort undoes the UPDATE with everything else. Nodes and controllers need not be told apart, since
any of them may begin an INSERT at any time.

## The invariant

A committed state says little about the next one: what matters is what the open transactions hold.
`SeqInv` therefore ties the two together. Committed messages of a room carry `1, …, n` in commit
order and the committed `next_seq` is `n + 1`; an open transaction with an assigned `seq` has
exactly that `next_seq`, and there is at most one of them for each room. The commit of that one
transaction then extends the list by one, and an abort leaves it as it was.
-/

namespace PostgresChat

open Execution

/-- A step of the database. Statements other than message INSERTs take effect in one step. -/
inductive DbEvent where
  | tick (milliseconds : ℕ)
  | createUser (id : UserId) (username : JsString)
  | createRoom (id : Uuid)
  | query (q : Query)
  | beginInsert (roomId : Uuid) (userId : UserId) (content : JsString)
  | assignSequence (t : ℕ)
  | setUsername (t : ℕ)
  | store (t : ℕ)
  | commit (t : ℕ)
  | abort (t : ℕ)

/-- `NEW` as the AFTER trigger sees it. -/
def Insert.row (ins : Insert) (seq : ℕ) (username : JsString) : MessageRow :=
  ⟨ins.id, seq, ins.roomId, ins.userId, username, ins.content, ins.createdAt⟩

namespace Db

/-- The INSERT number `t` moves on to `stage`. -/
def setStage (db : Db) (t : ℕ) (ins : Insert) (stage : InsertStage) : Db :=
  { db with inserts := db.inserts.set t { ins with stage := stage } }

/-- No open transaction holds the `room_sequences` row of `r`. -/
def lockFree (db : Db) (r : Uuid) : Bool := db.inserts.all fun ins ↦ !ins.locks r

/-- A step, with what it notifies. Notifications of an INSERT are sent when it commits. -/
def apply (db : Db) : DbEvent → Option (Db × List Notification)
  | .tick ms => some ({ db with now := db.now + ms }, [])
  | .createUser id username =>
    if (db.users.map Prod.fst).contains id then none
    else some ({ db with users := db.users ++ [(id, username)] }, [])
  | .createRoom id =>
    -- `init_room_sequence` runs in the same transaction; its ON CONFLICT keeps an existing row.
    if id ∈ db.rooms then none
    else some ({ db with
      rooms := db.rooms ++ [id]
      roomSequences := Function.update db.roomSequences id
        (some ((db.roomSequences id).getD 1)) }, [])
  | .query q => (db.exec q).map fun res ↦ (res.1, res.2.2)
  | .beginInsert roomId userId content =>
    some ({ db with
      inserts := db.inserts ++ [⟨db.nextMessageId, roomId, userId, content, db.now, .begun⟩]
      nextMessageId := db.nextMessageId + 1 }, [])
  | .assignSequence t => do
    let ins ← db.inserts[t]?
    guard (ins.stage = .begun ∧ db.lockFree ins.roomId)
    return (db.setStage t ins (.sequenced (db.roomSequences ins.roomId)), [])
  | .setUsername t => do
    let ins ← db.inserts[t]?
    match ins.stage with
    | .sequenced seq => return (db.setStage t ins (.named seq (db.username ins.userId)), [])
    | _ => none
  | .store t => do
    let ins ← db.inserts[t]?
    match ins.stage with
    | .named (some seq) (some username) =>
      -- NOT NULL holds here; the foreign keys and the unique index on `(room_id, seq)` are checked.
      guard (db.hasRefs ins.roomId ins.userId ∧ ∀ m ∈ db.messagesOf ins.roomId, m.seq ≠ seq)
      return (db.setStage t ins (.stored (ins.row seq username)), [])
    | _ => none
  | .commit t => do
    let ins ← db.inserts[t]?
    match ins.stage with
    | .stored row =>
      return ({ db.setStage t ins (.committed row) with
        messages := db.messages ++ [row]
        roomSequences := Function.update db.roomSequences row.roomId (some (row.seq + 1)) },
        [.message row])
    | _ => none
  | .abort t => do
    let ins ← db.inserts[t]?
    guard ins.stage.inFlight
    return (db.setStage t ins .aborted, [])

/-- No single statement notifies a message. -/
theorem message?_of_exec {db db' : Db} {q : Query} {res : QueryResult} {notes : List Notification}
    (h : db.exec q = some (db', res, notes)) : notes.filterMap Notification.message? = [] := by
  cases q <;> simp only [exec, Option.bind_eq_bind, Option.bind_eq_some_iff, Option.pure_def,
    Option.some.injEq, Prod.mk.injEq, reduceCtorEq] at h
  case deleteStalePresence => obtain ⟨-, -, rfl⟩ := h; rfl
  case selectMember => obtain ⟨_, _, -, -, rfl⟩ := h; rfl
  case selectHistory => obtain ⟨_, _, _, _, -, -, rfl⟩ := h; rfl
  case upsertPresence => obtain ⟨_, _, _, _, -, -, rfl⟩ := h; rfl
  case deletePresence => obtain ⟨_, _, -, -, rfl⟩ := h; rfl
  case upsertTyping => obtain ⟨_, _, _, _, -, -, rfl⟩ := h; rfl
  case deleteTyping => obtain ⟨_, _, -, -, rfl⟩ := h; rfl
  case insertMember => obtain ⟨_, _, _, _, -, -, rfl⟩ := h; rfl
  case deleteMember => obtain ⟨_, _, -, -, rfl⟩ := h; rfl

/-- A step, without its notifications. -/
def step (db : Db) (e : DbEvent) : Option Db := (db.apply e).map Prod.fst

/-! ## What a step does to the sequences -/

/-- The effect of a step on rooms, sequences, messages and INSERT statements. -/
inductive SeqStep (db db' : Db) : Prop
  | frame (rooms : db'.rooms = db.rooms) (sequences : db'.roomSequences = db.roomSequences)
      (messages : db'.messages = db.messages) (inserts : db'.inserts = db.inserts)
  | room (id : Uuid) (fresh : id ∉ db.rooms) (rooms : db'.rooms = db.rooms ++ [id])
      (sequences : db'.roomSequences = Function.update db.roomSequences id
        (some ((db.roomSequences id).getD 1)))
      (messages : db'.messages = db.messages) (inserts : db'.inserts = db.inserts)
  | begin (ins : Insert) (stage : ins.stage = .begun) (rooms : db'.rooms = db.rooms)
      (sequences : db'.roomSequences = db.roomSequences) (messages : db'.messages = db.messages)
      (inserts : db'.inserts = db.inserts ++ [ins])
  | assign (t : ℕ) (ins : Insert) (get : db.inserts[t]? = some ins) (stage : ins.stage = .begun)
      (free : db.lockFree ins.roomId = true)
      (result : db' = db.setStage t ins (.sequenced (db.roomSequences ins.roomId)))
  | advance (t : ℕ) (ins : Insert) (get : db.inserts[t]? = some ins) (stage : InsertStage)
      (flight : ins.stage.inFlight = true) (flight' : stage.inFlight = true)
      (seq : stage.seq? = ins.stage.seq?)
      (row : ∀ row, stage = .stored row → row.roomId = ins.roomId)
      (result : db' = db.setStage t ins stage)
  | commit (t : ℕ) (ins : Insert) (get : db.inserts[t]? = some ins) (row : MessageRow)
      (stage : ins.stage = .stored row)
      (result : db' = { db.setStage t ins (.committed row) with
        messages := db.messages ++ [row]
        roomSequences := Function.update db.roomSequences row.roomId (some (row.seq + 1)) })
  | abort (t : ℕ) (ins : Insert) (get : db.inserts[t]? = some ins)
      (flight : ins.stage.inFlight = true) (result : db' = db.setStage t ins .aborted)

/-- A single statement leaves rooms, sequences, messages and INSERTs alone. -/
theorem exec_frame {db db' : Db} {q : Query} {res : QueryResult} {notes : List Notification}
    (h : db.exec q = some (db', res, notes)) :
    db'.rooms = db.rooms ∧ db'.roomSequences = db.roomSequences ∧ db'.messages = db.messages ∧
      db'.inserts = db.inserts := by
  cases q <;> simp only [exec, Option.bind_eq_bind, Option.bind_eq_some_iff, Option.pure_def,
    Option.some.injEq, Prod.mk.injEq, reduceCtorEq] at h
  case deleteStalePresence => obtain ⟨rfl, -⟩ := h; exact ⟨rfl, rfl, rfl, rfl⟩
  case selectMember => obtain ⟨_, _, rfl, -⟩ := h; exact ⟨rfl, rfl, rfl, rfl⟩
  case selectHistory => obtain ⟨_, _, _, _, rfl, -⟩ := h; exact ⟨rfl, rfl, rfl, rfl⟩
  case upsertPresence => obtain ⟨_, _, _, _, rfl, -⟩ := h; exact ⟨rfl, rfl, rfl, rfl⟩
  case deletePresence => obtain ⟨_, _, rfl, -⟩ := h; exact ⟨rfl, rfl, rfl, rfl⟩
  case upsertTyping => obtain ⟨_, _, _, _, rfl, -⟩ := h; exact ⟨rfl, rfl, rfl, rfl⟩
  case deleteTyping => obtain ⟨_, _, rfl, -⟩ := h; exact ⟨rfl, rfl, rfl, rfl⟩
  case insertMember => obtain ⟨_, _, _, _, rfl, -⟩ := h; exact ⟨rfl, rfl, rfl, rfl⟩
  case deleteMember => obtain ⟨_, _, rfl, -⟩ := h; exact ⟨rfl, rfl, rfl, rfl⟩

theorem seqStep_of_apply {db db' : Db} {e : DbEvent} {notes : List Notification}
    (h : db.apply e = some (db', notes)) : SeqStep db db' := by
  cases e with
  | tick ms =>
    simp only [apply, Option.some.injEq, Prod.mk.injEq] at h
    obtain ⟨rfl, -⟩ := h
    exact .frame rfl rfl rfl rfl
  | createUser id username =>
    simp only [apply, Option.ite_none_left_eq_some, Option.some.injEq, Prod.mk.injEq] at h
    obtain ⟨-, rfl, -⟩ := h
    exact .frame rfl rfl rfl rfl
  | createRoom id =>
    simp only [apply, Option.ite_none_left_eq_some, Option.some.injEq, Prod.mk.injEq] at h
    obtain ⟨hid, rfl, -⟩ := h
    exact .room id hid rfl rfl rfl rfl
  | query q =>
    simp only [apply, Option.map_eq_some_iff, Prod.mk.injEq] at h
    obtain ⟨⟨db₁, res, notes₁⟩, hexec, rfl, -⟩ := h
    obtain ⟨h₁, h₂, h₃, h₄⟩ := exec_frame hexec
    exact .frame h₁ h₂ h₃ h₄
  | beginInsert roomId userId content =>
    simp only [apply, Option.some.injEq, Prod.mk.injEq] at h
    obtain ⟨rfl, -⟩ := h
    exact .begin _ rfl rfl rfl rfl rfl
  | assignSequence t =>
    simp only [apply, Option.bind_eq_bind, Option.bind_eq_some_iff, Option.guard_eq_some',
      Option.pure_def, Option.some.injEq, Prod.mk.injEq] at h
    obtain ⟨ins, hins, -, ⟨hstage, hfree⟩, rfl, -⟩ := h
    exact .assign t ins hins hstage hfree rfl
  | setUsername t =>
    simp only [apply, Option.bind_eq_bind, Option.bind_eq_some_iff] at h
    obtain ⟨ins, hins, h⟩ := h
    split at h
    · rename_i seq hstage
      simp only [Option.pure_def, Option.some.injEq, Prod.mk.injEq] at h
      obtain ⟨rfl, -⟩ := h
      exact .advance t ins hins (.named seq (db.username ins.userId)) (by rw [hstage]; rfl) rfl
        (by rw [hstage]; rfl) nofun rfl
    · cases h
  | store t =>
    simp only [apply, Option.bind_eq_bind, Option.bind_eq_some_iff] at h
    obtain ⟨ins, hins, h⟩ := h
    split at h
    · rename_i seq username hstage
      simp only [Option.bind_eq_some_iff, Option.guard_eq_some', Option.pure_def,
        Option.some.injEq, Prod.mk.injEq] at h
      obtain ⟨-, -, rfl, -⟩ := h
      refine .advance t ins hins _ (by rw [hstage]; rfl) rfl (by rw [hstage]; rfl) ?_ rfl
      rintro _ ⟨⟩
      rfl
    · cases h
  | commit t =>
    simp only [apply, Option.bind_eq_bind, Option.bind_eq_some_iff] at h
    obtain ⟨ins, hins, h⟩ := h
    split at h
    · rename_i row hstage
      simp only [Option.pure_def, Option.some.injEq, Prod.mk.injEq] at h
      obtain ⟨rfl, -⟩ := h
      exact .commit t ins hins row hstage rfl
    · cases h
  | abort t =>
    simp only [apply, Option.bind_eq_bind, Option.bind_eq_some_iff, Option.guard_eq_some',
      Option.pure_def, Option.some.injEq, Prod.mk.injEq] at h
    obtain ⟨ins, hins, -, hflight, rfl, -⟩ := h
    exact .abort t ins hins hflight rfl

/-- A message is notified by the step that commits it, and by no other. -/
theorem messages_of_apply {db db' : Db} {e : DbEvent} {notes : List Notification}
    (h : db.apply e = some (db', notes)) :
    db'.messages = db.messages ++ notes.filterMap Notification.message? := by
  cases e with
  | query q =>
    simp only [apply, Option.map_eq_some_iff, Prod.mk.injEq] at h
    obtain ⟨⟨db₁, res, notes₁⟩, hexec, rfl, rfl⟩ := h
    rw [(exec_frame hexec).2.2.1, message?_of_exec hexec, List.append_nil]
  | tick ms =>
    cases h
    exact (List.append_nil _).symm
  | createUser id username =>
    simp only [apply, Option.ite_none_left_eq_some, Option.some.injEq, Prod.mk.injEq] at h
    obtain ⟨-, rfl, rfl⟩ := h
    exact (List.append_nil _).symm
  | createRoom id =>
    simp only [apply, Option.ite_none_left_eq_some, Option.some.injEq, Prod.mk.injEq] at h
    obtain ⟨-, rfl, rfl⟩ := h
    exact (List.append_nil _).symm
  | beginInsert roomId userId content =>
    cases h
    exact (List.append_nil _).symm
  | assignSequence t =>
    simp only [apply, Option.bind_eq_bind, Option.bind_eq_some_iff] at h
    obtain ⟨ins, -, -, -, h⟩ := h
    cases h
    exact (List.append_nil _).symm
  | abort t =>
    simp only [apply, Option.bind_eq_bind, Option.bind_eq_some_iff] at h
    obtain ⟨ins, -, -, -, h⟩ := h
    cases h
    exact (List.append_nil _).symm
  | setUsername t =>
    simp only [apply, Option.bind_eq_bind, Option.bind_eq_some_iff] at h
    obtain ⟨ins, -, h⟩ := h
    split at h <;> cases h
    exact (List.append_nil _).symm
  | store t =>
    simp only [apply, Option.bind_eq_bind, Option.bind_eq_some_iff] at h
    obtain ⟨ins, -, h⟩ := h
    split at h
    · simp only [Option.bind_eq_some_iff] at h
      obtain ⟨-, -, h⟩ := h
      cases h
      exact (List.append_nil _).symm
    · cases h
  | commit t =>
    simp only [apply, Option.bind_eq_bind, Option.bind_eq_some_iff] at h
    obtain ⟨ins, -, h⟩ := h
    split at h <;> cases h
    rfl

theorem seqStep_of_step {db db' : Db} {e : DbEvent} (h : db.step e = some db') :
    SeqStep db db' := by
  obtain ⟨⟨db₁, notes⟩, happly, rfl⟩ := Option.map_eq_some_iff.mp h
  exact seqStep_of_apply happly

/-! ## The invariant -/

/-- The `seq` values of the committed messages of a room, in commit order. -/
def seqs (db : Db) (r : Uuid) : List ℕ := (db.messagesOf r).map MessageRow.seq

theorem seqs_of_messages_eq {db db' : Db} (h : db'.messages = db.messages) (r : Uuid) :
    db'.seqs r = db.seqs r := by
  rw [seqs, seqs, messagesOf, messagesOf, h]

theorem seqs_of_messages_concat {db db' : Db} {row : MessageRow}
    (h : db'.messages = db.messages ++ [row]) (r : Uuid) :
    db'.seqs r = if row.roomId = r then db.seqs r ++ [row.seq] else db.seqs r := by
  rw [seqs, seqs, messagesOf, messagesOf, h, List.filter_append]
  split
  · rename_i hr
    rw [List.filter_cons_of_pos (by simpa using hr), List.filter_nil, List.map_append,
      List.map_singleton]
  · rename_i hr
    rw [List.filter_cons_of_neg (by simpa using hr), List.filter_nil, List.append_nil]

/-- Committed messages, `room_sequences` and the open transactions agree. -/
structure SeqInv (db : Db) : Prop where
  /-- The committed messages of a room carry `1, …, n` in commit order. -/
  range : ∀ r, db.seqs r = List.range' 1 (db.seqs r).length
  /-- The committed `next_seq` is the successor of the last committed `seq`. -/
  next : ∀ r, db.roomSequences r =
    if r ∈ db.rooms then some ((db.seqs r).length + 1) else none
  /-- Only rooms have messages. -/
  empty : ∀ r, r ∉ db.rooms → db.seqs r = []
  /-- An open transaction holding the row of `r` has the committed `next_seq` assigned. -/
  assigned : ∀ (t : ℕ) (ins : Insert), db.inserts[t]? = some ins →
    ∀ r, ins.locks r → ins.stage.seq? = db.roomSequences r
  /-- At most one open transaction holds the row of `r`. -/
  exclusive : ∀ (r : Uuid) (t t' : ℕ) (ins ins' : Insert), db.inserts[t]? = some ins →
    db.inserts[t']? = some ins' → ins.locks r → ins'.locks r → t = t'
  /-- A stored row is one of the room the statement names. -/
  stored : ∀ (t : ℕ) (ins : Insert), db.inserts[t]? = some ins →
    ∀ row, ins.stage = .stored row → row.roomId = ins.roomId

theorem seqInv_empty : SeqInv {} where
  range _ := rfl
  next _ := rfl
  empty _ _ := rfl
  assigned t ins h := by simp at h
  exclusive r t t' ins ins' h := by simp at h
  stored t ins h := by simp at h

theorem lockFree_iff {db : Db} {r : Uuid} :
    db.lockFree r = true ↔ ∀ ins ∈ db.inserts, ins.locks r = false := by
  rw [lockFree, List.all_eq_true]
  simp only [Bool.not_eq_true']

theorem locks_iff {ins : Insert} {r : Uuid} :
    ins.locks r = true ↔
      ins.roomId = r ∧ ins.stage.inFlight = true ∧ ins.stage.seq?.isSome = true := by
  rw [Insert.locks, Bool.and_eq_true, Bool.and_eq_true, decide_eq_true_iff, and_assoc]

/-- The INSERTs after one of them moved on. -/
theorem getElem?_setStage {db : Db} {t t' : ℕ} {ins ins' : Insert} {stage : InsertStage}
    (h : (db.setStage t ins stage).inserts[t']? = some ins') :
    (t' = t ∧ ins' = { ins with stage := stage }) ∨ (t' ≠ t ∧ db.inserts[t']? = some ins') := by
  rw [setStage, List.getElem?_set] at h
  split at h
  · rename_i heq
    split at h
    · rw [Option.some.injEq] at h
      exact Or.inl ⟨heq.symm, h.symm⟩
    · cases h
  · rename_i hne
    exact Or.inr ⟨fun h' ↦ hne h'.symm, h⟩

/-- A transaction that ended holds no row. -/
theorem not_locks_of_ended {ins : Insert} {stage : InsertStage} (h : stage.inFlight = false)
    (r : Uuid) : ¬ ({ ins with stage := stage } : Insert).locks r := by
  rw [locks_iff]
  rintro ⟨-, hflight, -⟩
  rw [h] at hflight
  cases hflight

theorem locks_setStage_iff {ins : Insert} {stage : InsertStage} (hflight : ins.stage.inFlight)
    (hflight' : stage.inFlight) (hseq : stage.seq? = ins.stage.seq?) (r : Uuid) :
    ({ ins with stage := stage } : Insert).locks r ↔ ins.locks r := by
  rw [locks_iff, locks_iff, hflight, hflight', hseq]

/-- **Step lemma.** Every step of every transaction preserves the invariant. -/
theorem SeqInv.step {db db' : Db} (hinv : SeqInv db) (hstep : SeqStep db db') : SeqInv db' := by
  cases hstep with
  | frame hrooms hsequences hmessages hinserts =>
    have hseqs : ∀ r, db'.seqs r = db.seqs r := seqs_of_messages_eq hmessages
    exact ⟨fun r ↦ by rw [hseqs]; exact hinv.range r,
      fun r ↦ by rw [hsequences, hrooms, hseqs]; exact hinv.next r,
      fun r ↦ by rw [hrooms, hseqs]; exact hinv.empty r,
      fun t ins ↦ by rw [hinserts, hsequences]; exact hinv.assigned t ins,
      fun r t t' ins ins' ↦ by rw [hinserts]; exact hinv.exclusive r t t' ins ins',
      fun t ins ↦ by rw [hinserts]; exact hinv.stored t ins⟩
  | room id hfresh hrooms hsequences hmessages hinserts =>
    have hseqs : ∀ r, db'.seqs r = db.seqs r := seqs_of_messages_eq hmessages
    have hnone : db.roomSequences id = none := by rw [hinv.next, if_neg hfresh]
    refine ⟨fun r ↦ by rw [hseqs]; exact hinv.range r, fun r ↦ ?_, fun r hr ↦ ?_, ?_,
      fun r t t' ins ins' ↦ by rw [hinserts]; exact hinv.exclusive r t t' ins ins',
      fun t ins ↦ by rw [hinserts]; exact hinv.stored t ins⟩
    · rw [hsequences, hrooms, hseqs]
      by_cases hr : r = id
      · subst hr
        rw [Function.update_self, hnone, Option.getD_none, hinv.empty r hfresh,
          if_pos (List.mem_append_right _ List.mem_cons_self), List.length_nil]
      · rw [Function.update_of_ne hr, hinv.next]
        simp only [List.mem_append, List.mem_singleton, hr, or_false]
    · rw [hrooms, List.mem_append] at hr
      rw [hseqs, hinv.empty r fun h ↦ hr (Or.inl h)]
    · -- The new room has no row before this step, so no transaction holds it.
      intro t ins hins r hlocks
      rw [hinserts] at hins
      have hassigned := hinv.assigned t ins hins r hlocks
      rw [hsequences]
      by_cases hr : r = id
      · subst hr
        rw [hnone] at hassigned
        rw [locks_iff, hassigned] at hlocks
        cases hlocks.2.2
      · rw [Function.update_of_ne hr, hassigned]
  | begin ins hstage hrooms hsequences hmessages hinserts =>
    have hseqs : ∀ r, db'.seqs r = db.seqs r := seqs_of_messages_eq hmessages
    have hfree : ∀ r, ¬ ins.locks r := fun r h ↦ by
      rw [locks_iff, hstage] at h
      cases h.2.2
    -- Statement numbers are list positions: the new one is the last.
    have hget : ∀ (t : ℕ) (ins' : Insert), db'.inserts[t]? = some ins' →
        db.inserts[t]? = some ins' ∨ ins' = ins := by
      intro t ins' h
      rw [hinserts, Lists.getElem?_concat_eq_some] at h
      exact h.imp_right And.right
    refine ⟨fun r ↦ by rw [hseqs]; exact hinv.range r,
      fun r ↦ by rw [hsequences, hrooms, hseqs]; exact hinv.next r,
      fun r ↦ by rw [hrooms, hseqs]; exact hinv.empty r, ?_, ?_, ?_⟩
    · intro t ins' h r hlocks
      rcases hget t ins' h with h | rfl
      · rw [hsequences]
        exact hinv.assigned t ins' h r hlocks
      · exact absurd hlocks (hfree r)
    · intro r t t' ins₁ ins₂ h₁ h₂ hl₁ hl₂
      rcases hget t ins₁ h₁ with h₁ | rfl
      · rcases hget t' ins₂ h₂ with h₂ | rfl
        · exact hinv.exclusive r t t' ins₁ ins₂ h₁ h₂ hl₁ hl₂
        · exact absurd hl₂ (hfree r)
      · exact absurd hl₁ (hfree r)
    · intro t ins' h row hrow
      rcases hget t ins' h with h | rfl
      · exact hinv.stored t ins' h row hrow
      · rw [hstage] at hrow
        cases hrow
  | assign t ins hget hstage hfree hresult =>
    subst hresult
    rw [lockFree_iff] at hfree
    -- Whoever holds a row now is the one that has just got it, or held another room's row before.
    have hother : ∀ (t' : ℕ) (ins' : Insert), db.inserts[t']? = some ins' →
        ¬ ins'.locks ins.roomId := fun t' ins' h hl ↦ by
        rw [hfree ins' (List.mem_of_getElem? h)] at hl
        cases hl
    refine ⟨hinv.range, hinv.next, hinv.empty, ?_, ?_, ?_⟩
    · intro t' ins' h r hlocks
      rcases getElem?_setStage h with ⟨rfl, rfl⟩ | ⟨-, h⟩
      · obtain ⟨hr, -, -⟩ := locks_iff.mp hlocks
        rw [← show ins.roomId = r from hr]
        rfl
      · exact hinv.assigned t' ins' h r hlocks
    · intro r t₁ t₂ ins₁ ins₂ h₁ h₂ hl₁ hl₂
      rcases getElem?_setStage h₁ with ⟨rfl, rfl⟩ | ⟨-, hold₁⟩
      · rcases getElem?_setStage h₂ with ⟨rfl, rfl⟩ | ⟨-, hold₂⟩
        · rfl
        · obtain ⟨hr, -, -⟩ := locks_iff.mp hl₁
          rw [← show ins.roomId = r from hr] at hl₂
          exact absurd hl₂ (hother t₂ ins₂ hold₂)
      · rcases getElem?_setStage h₂ with ⟨rfl, rfl⟩ | ⟨-, hold₂⟩
        · obtain ⟨hr, -, -⟩ := locks_iff.mp hl₂
          rw [← show ins.roomId = r from hr] at hl₁
          exact absurd hl₁ (hother t₁ ins₁ hold₁)
        · exact hinv.exclusive r t₁ t₂ ins₁ ins₂ hold₁ hold₂ hl₁ hl₂
    · intro t' ins' h row hrow
      rcases getElem?_setStage h with ⟨rfl, rfl⟩ | ⟨-, h⟩
      · cases hrow
      · exact hinv.stored t' ins' h row hrow
  | advance t ins hget stage hflight hflight' hseq hrow hresult =>
    subst hresult
    have hlocks := locks_setStage_iff hflight hflight' hseq
    refine ⟨hinv.range, hinv.next, hinv.empty, ?_, ?_, ?_⟩
    · intro t' ins' h r hl
      rcases getElem?_setStage h with ⟨rfl, rfl⟩ | ⟨-, h⟩
      · exact hseq.trans (hinv.assigned t' ins hget r ((hlocks r).mp hl))
      · exact hinv.assigned t' ins' h r hl
    · intro r t₁ t₂ ins₁ ins₂ h₁ h₂ hl₁ hl₂
      rcases getElem?_setStage h₁ with ⟨rfl, rfl⟩ | ⟨-, hold₁⟩
      · rcases getElem?_setStage h₂ with ⟨rfl, rfl⟩ | ⟨-, hold₂⟩
        · rfl
        · exact hinv.exclusive r t₁ t₂ ins ins₂ hget hold₂ ((hlocks r).mp hl₁) hl₂
      · rcases getElem?_setStage h₂ with ⟨rfl, rfl⟩ | ⟨-, hold₂⟩
        · exact hinv.exclusive r t₁ t₂ ins₁ ins hold₁ hget hl₁ ((hlocks r).mp hl₂)
        · exact hinv.exclusive r t₁ t₂ ins₁ ins₂ hold₁ hold₂ hl₁ hl₂
    · intro t' ins' h row hstored
      rcases getElem?_setStage h with ⟨rfl, rfl⟩ | ⟨-, h⟩
      · exact hrow row hstored
      · exact hinv.stored t' ins' h row hstored
  | commit t ins hget row hstage hresult =>
    -- The committing transaction holds its room's row, so it carries the committed `next_seq`.
    have hroom : row.roomId = ins.roomId := hinv.stored t ins hget row hstage
    have hholds : ins.locks row.roomId := locks_iff.mpr
      ⟨hroom.symm, by rw [hstage]; rfl, by rw [hstage]; rfl⟩
    have hnext : some row.seq = db.roomSequences row.roomId := by
      rw [← hinv.assigned t ins hget row.roomId hholds, hstage]
      rfl
    have hmem : row.roomId ∈ db.rooms := by
      by_contra hmem
      rw [hinv.next, if_neg hmem] at hnext
      cases hnext
    have hseq : row.seq = (db.seqs row.roomId).length + 1 := by
      rw [hinv.next, if_pos hmem, Option.some.injEq] at hnext
      exact hnext
    have hseqs : ∀ r, db'.seqs r =
        if row.roomId = r then db.seqs r ++ [row.seq] else db.seqs r := fun r ↦
      seqs_of_messages_concat (by rw [hresult]) r
    have hsequences : db'.roomSequences =
        Function.update db.roomSequences row.roomId (some (row.seq + 1)) := by rw [hresult]
    have hrooms : db'.rooms = db.rooms := by rw [hresult]; rfl
    have hothers : ∀ (t' : ℕ) (ins' : Insert), db'.inserts[t']? = some ins' →
        ∀ r, ins'.locks r → t' ≠ t ∧ db.inserts[t']? = some ins' := by
      intro t' ins' h r hl
      rw [hresult] at h
      rcases getElem?_setStage h with ⟨rfl, rfl⟩ | h
      · exact absurd hl (not_locks_of_ended rfl r)
      · exact h
    refine ⟨fun r ↦ ?_, fun r ↦ ?_, fun r hr ↦ ?_, ?_, ?_, ?_⟩
    · rw [hseqs]
      split
      · rename_i hr
        subst hr
        rw [List.length_append, List.length_singleton, List.range'_concat, ← hinv.range, hseq,
          Nat.one_mul, Nat.add_comm 1]
      · exact hinv.range r
    · rw [hsequences, hrooms, hseqs]
      by_cases hr : row.roomId = r
      · subst hr
        rw [Function.update_self, if_pos hmem, if_pos rfl, List.length_append,
          List.length_singleton, hseq]
      · rw [Function.update_of_ne (Ne.symm hr), if_neg hr, hinv.next]
    · rw [hrooms] at hr
      have hne : row.roomId ≠ r := fun h ↦ hr (h ▸ hmem)
      rw [hseqs, if_neg hne, hinv.empty r hr]
    · intro t' ins' h r hl
      obtain ⟨hne, h⟩ := hothers t' ins' h r hl
      have hr : r ≠ row.roomId := by
        rintro rfl
        exact hne (hinv.exclusive _ t' t ins' ins h hget hl hholds)
      rw [hsequences, Function.update_of_ne hr, hinv.assigned t' ins' h r hl]
    · intro r t₁ t₂ ins₁ ins₂ h₁ h₂ hl₁ hl₂
      exact hinv.exclusive r t₁ t₂ ins₁ ins₂ (hothers t₁ ins₁ h₁ r hl₁).2
        (hothers t₂ ins₂ h₂ r hl₂).2 hl₁ hl₂
    · intro t' ins' h row' hstored
      rw [hresult] at h
      rcases getElem?_setStage h with ⟨rfl, rfl⟩ | ⟨-, h⟩
      · cases hstored
      · exact hinv.stored t' ins' h row' hstored
  | abort t ins hget hflight hresult =>
    subst hresult
    have hothers : ∀ (t' : ℕ) (ins' : Insert),
        (db.setStage t ins .aborted).inserts[t']? = some ins' →
        ∀ r, ins'.locks r → db.inserts[t']? = some ins' := by
      intro t' ins' h r hl
      rcases getElem?_setStage h with ⟨rfl, rfl⟩ | ⟨-, h⟩
      · exact absurd hl (not_locks_of_ended rfl r)
      · exact h
    refine ⟨hinv.range, hinv.next, hinv.empty, ?_, ?_, ?_⟩
    · intro t' ins' h r hl
      exact hinv.assigned t' ins' (hothers t' ins' h r hl) r hl
    · intro r t₁ t₂ ins₁ ins₂ h₁ h₂ hl₁ hl₂
      exact hinv.exclusive r t₁ t₂ ins₁ ins₂ (hothers t₁ ins₁ h₁ r hl₁)
        (hothers t₂ ins₂ h₂ r hl₂) hl₁ hl₂
    · intro t' ins' h row hstored
      rcases getElem?_setStage h with ⟨rfl, rfl⟩ | ⟨-, h⟩
      · cases hstored
      · exact hinv.stored t' ins' h row hstored

/-- **Run lemma.** The invariant holds in every reachable state. -/
theorem seqInv_of_run {es : List DbEvent} {db : Db} (hrun : run step {} es = some db) :
    SeqInv db :=
  run_invariant SeqInv (fun hinv h ↦ hinv.step (seqStep_of_step h)) seqInv_empty hrun

/-! ## The sequence of a room -/

/-- What is committed when a `seq` is held: every message below it, and nothing else. -/
theorem SeqInv.seq_of_locks {db : Db} (hinv : SeqInv db) {t : ℕ} {ins : Insert}
    (hget : db.inserts[t]? = some ins) {r : Uuid} (hlocks : ins.locks r) :
    ins.stage.seq? = some ((db.seqs r).length + 1) := by
  have hassigned := hinv.assigned t ins hget r hlocks
  rw [hinv.next] at hassigned
  split at hassigned
  · exact hassigned
  · have hsome := (locks_iff.mp hlocks).2.2
    rw [hassigned] at hsome
    cases hsome

theorem mem_seqs {db : Db} {r : Uuid} {k : ℕ} :
    k ∈ db.seqs r ↔ ∃ m ∈ db.messagesOf r, m.seq = k := by
  rw [seqs, List.mem_map]

/-- The committed messages of a room are numbered `1, …, n` in commit order and the next number is
`n + 1`, in every state that transactions reach in any interleaving. An open transaction to which
`k + 1` is assigned finds the message numbered `k` committed. -/
theorem gapless_room_sequence {es : List DbEvent} {db : Db} (hrun : run step {} es = some db)
    {r : Uuid} (hr : r ∈ db.rooms) :
    ∃ n, db.seqs r = List.range' 1 n ∧ db.roomSequences r = some (n + 1) ∧
      ∀ (t k : ℕ) (ins : Insert), db.inserts[t]? = some ins → ins.roomId = r →
        ins.stage.inFlight → ins.stage.seq? = some (k + 1) →
        k = n ∧ (1 ≤ k → ∃ m ∈ db.messagesOf r, m.seq = k) := by
  have hinv := seqInv_of_run hrun
  refine ⟨(db.seqs r).length, hinv.range r, by rw [hinv.next, if_pos hr], ?_⟩
  intro t k ins hget hroom hflight hseq
  have hlocks : ins.locks r := locks_iff.mpr ⟨hroom, hflight, by rw [hseq]; rfl⟩
  have hk : k = (db.seqs r).length := by
    have h := hinv.seq_of_locks hget hlocks
    rw [hseq, Option.some.injEq] at h
    exact Nat.succ.inj h
  refine ⟨hk, fun hpos ↦ mem_seqs.mp ?_⟩
  rw [hinv.range r, List.mem_range'_1]
  omega

/-- Three INSERTs of one room: the first aborts after its `seq` was assigned, the second has the
same `seq` assigned and commits, the third holds the next one. -/
theorem gapless_room_sequence_after_abort :
    ∃ db, run step {} [.createRoom ⟨List.replicate 32 0, rfl⟩, .createUser [0x61] [0x62],
        .beginInsert ⟨List.replicate 32 0, rfl⟩ [0x61] [0x63],
        .beginInsert ⟨List.replicate 32 0, rfl⟩ [0x61] [0x64],
        .beginInsert ⟨List.replicate 32 0, rfl⟩ [0x61] [0x65],
        .assignSequence 0, .abort 0, .assignSequence 1, .setUsername 1, .store 1, .commit 1,
        .assignSequence 2] = some db ∧
      db.inserts.map (·.stage.seq?) = [none, some 1, some 2] ∧
      ∃ n, db.seqs ⟨List.replicate 32 0, rfl⟩ = List.range' 1 n :=
  exists_run_of_any (fun db : Db ↦ ⟨List.replicate 32 0, rfl⟩ ∈ db.rooms ∧
      db.inserts.map (·.stage.seq?) = [none, some 1, some 2]) (by decide)
    fun _ hrun h ↦ ⟨h.2, (gapless_room_sequence hrun h.1).imp fun _ h ↦ h.1⟩

end Db

end PostgresChat
