import PostgresChat.Chat.Service
import PostgresChat.Database.Steps

/-!
# What a message may be

The validators bound the length of a message in UTF-16 units. The INSERT has two more conditions,
and neither is checked before it: `TEXT` cannot hold a NUL, and `notify_new_message` hands the row,
as JSON text, to `pg_notify`, which fails from 8000 bytes on and takes the INSERT with it. The
second is about bytes, after escaping, and about the other members of the object as well.

The steps of an INSERT in `Db.apply` leave both out, so they allow more than PostgreSQL does. What
PostgreSQL admits of them is a guard on runs here (`Admits`).
-/

namespace PostgresChat

open Execution

/-! ## The payload of `notify_new_message` -/

/-- The bytes PostgreSQL stores for a text parameter. -/
abbrev Bytes := List UInt8

/-- `escape_json`, inside the quotation marks. -/
def escapeByte (b : UInt8) : Bytes :=
  if b = 0x22 ∨ b = 0x5C then [0x5C, b]
  else if b = 0x08 then [0x5C, 0x62]
  else if b = 0x09 then [0x5C, 0x74]
  else if b = 0x0A then [0x5C, 0x6E]
  else if b = 0x0C then [0x5C, 0x66]
  else if b = 0x0D then [0x5C, 0x72]
  else if b.toNat < 0x20 then
    [0x5C, 0x75, 0x30, 0x30, (JsString.hexLower (b.toNat / 0x10)).toUInt8,
      (JsString.hexLower (b.toNat % 0x10)).toUInt8]
  else [b]

/-- `escape_json`: a JSON string literal. -/
def escapeJson (text : JsString) : Bytes :=
  0x22 :: (JsString.utf8 text).flatMap escapeByte ++ [0x22]

/-- `json_build_object(...)::text`, of names and values that are JSON text already. -/
def jsonBuildObject (members : List (JsString × Bytes)) : Bytes :=
  JsString.utf8 (JsString.lit "\x7b") ++
    (JsString.utf8 (JsString.lit ", ")).intercalate
      (members.map fun m ↦ escapeJson m.1 ++ JsString.utf8 (JsString.lit " : ") ++ m.2) ++
    JsString.utf8 (JsString.lit "\x7d")

/-- The second argument of `pg_notify`. How a `timestamptz` is printed depends on the time zone of
the session, and is given by `timestamp`. -/
def MessageRow.notifyPayload (timestamp : ℕ → JsString) (row : MessageRow) : Bytes :=
  jsonBuildObject [
    (JsString.lit "id", JsString.utf8 (JsNumber.decimal row.id)),
    (JsString.lit "seq", JsString.utf8 (JsNumber.decimal row.seq)),
    (JsString.lit "room_id", escapeJson row.roomId.text),
    (JsString.lit "user_id", escapeJson row.userId),
    (JsString.lit "username", escapeJson row.username),
    (JsString.lit "content", escapeJson row.content),
    (JsString.lit "created_at", escapeJson (timestamp row.createdAt))]

/-- From this many bytes on `pg_notify` raises an error. -/
def notifyPayloadLimit : ℕ := 8000

/-- `pg_notify` takes the payload of the row. -/
def MessageRow.Notifiable (timestamp : ℕ → JsString) (row : MessageRow) : Prop :=
  (row.notifyPayload timestamp).length < notifyPayloadLimit

instance (timestamp : ℕ → JsString) (row : MessageRow) : Decidable (row.Notifiable timestamp) :=
  inferInstanceAs (Decidable (_ < _))

/-! ## Its length -/

/-- The bytes a byte takes inside a JSON string literal. -/
def escapedWidth (b : UInt8) : ℕ :=
  if b ∈ [0x22, 0x5C, 0x08, 0x09, 0x0A, 0x0C, 0x0D] then 2 else if b.toNat < 0x20 then 6 else 1

/-- The bytes a text takes inside a JSON string literal. -/
def jsonLength (text : JsString) : ℕ := ((JsString.utf8 text).map escapedWidth).sum

/-- What the payload has besides the text of the message: 139 bytes of names, punctuation and room
id, and the other values. -/
def MessageRow.otherLength (timestamp : ℕ → JsString) (row : MessageRow) : ℕ :=
  139 + (JsString.utf8 (JsNumber.decimal row.id)).length +
    (JsString.utf8 (JsNumber.decimal row.seq)).length + jsonLength row.userId +
    jsonLength row.username + jsonLength (timestamp row.createdAt)

theorem length_escapeByte (b : UInt8) : (escapeByte b).length = escapedWidth b := by
  simp only [escapeByte, escapedWidth, List.mem_cons, List.not_mem_nil, or_false]
  split_ifs <;> first | rfl | tauto

theorem length_escapeJson (text : JsString) : (escapeJson text).length = jsonLength text + 2 := by
  rw [escapeJson, List.length_append, List.length_cons, List.length_flatMap, jsonLength,
    funext length_escapeByte]
  rfl

theorem escapedWidth_of_isPlain {u : UInt16} (h : JsString.isPlain u = true) :
    escapedWidth u.toNat.toUInt8 = 1 := by
  have hascii := JsString.isAscii_of_isPlain h
  rw [JsString.isPlain, Bool.and_eq_true, Bool.and_eq_true, Bool.and_eq_true, decide_eq_true_eq,
    bne_iff_ne, bne_iff_ne] at h
  rw [JsString.isAscii, decide_eq_true_eq] at hascii
  obtain ⟨⟨⟨-, hspace⟩, hquote⟩, hbackslash⟩ := h
  have htoNat : u.toNat.toUInt8.toNat = u.toNat := by
    rw [Nat.toUInt8_eq, UInt8.toNat_ofNat', Nat.mod_eq_of_lt (by omega)]
  have hne : ∀ b : UInt8, b.toNat ≠ u.toNat → u.toNat.toUInt8 ≠ b := by
    rintro b hb rfl
    exact hb htoNat
  have hunit : ∀ v : UInt16, u ≠ v → v.toNat ≠ u.toNat :=
    fun v hv heq ↦ hv (UInt16.toNat_inj.mp heq.symm)
  rw [escapedWidth, if_neg, if_neg (by omega)]
  simp only [List.mem_cons, List.not_mem_nil, or_false, not_or]
  have hcontrol : ∀ b : UInt8, b.toNat < 0x20 → u.toNat.toUInt8 ≠ b :=
    fun b hb ↦ hne b (by omega)
  exact ⟨hne _ (hunit 0x22 hquote), hne _ (hunit 0x5C hbackslash), hcontrol _ (by decide),
    hcontrol _ (by decide), hcontrol _ (by decide), hcontrol _ (by decide), hcontrol _ (by decide)⟩

/-- A text of plain characters is shown as it is. -/
theorem jsonLength_of_isPlain {text : JsString} (h : ∀ u ∈ text, JsString.isPlain u = true) :
    jsonLength text = text.length := by
  have hutf8 := JsString.utf8_append_of_isAscii (fun u hu ↦ JsString.isAscii_of_isPlain (h u hu)) []
  rw [List.append_nil] at hutf8
  have hones : text.map (escapedWidth ∘ fun u ↦ u.toNat.toUInt8) = text.map fun _ ↦ 1 :=
    List.map_congr_left fun u hu ↦ escapedWidth_of_isPlain (h u hu)
  rw [jsonLength, hutf8, JsString.utf8, JsString.codePoints, List.flatMap_nil, List.append_nil,
    List.map_map, hones, List.map_const', List.sum_replicate_nat, Nat.mul_one]

theorem isPlain_hexUnit (d : Fin 16) : JsString.isPlain (Uuid.hexUnit d) = true := by
  revert d
  decide

theorem jsonLength_uuid (id : Uuid) : jsonLength id.text = 36 := by
  rw [jsonLength_of_isPlain, Uuid.length_text]
  intro u hu
  rcases Uuid.eq_of_mem_printDigits hu with rfl | ⟨d, rfl⟩
  · rfl
  · exact isPlain_hexUnit d

/-- **The length of the payload.** Only the first summand is about the text of the message. -/
theorem length_notifyPayload (timestamp : ℕ → JsString) (row : MessageRow) :
    (row.notifyPayload timestamp).length = jsonLength row.content + row.otherLength timestamp := by
  have hname : ∀ name : String, (JsString.lit name).all JsString.isPlain = true →
      jsonLength (JsString.lit name) = (JsString.lit name).length := fun name hplain ↦
    jsonLength_of_isPlain (List.all_eq_true.mp hplain)
  simp only [MessageRow.notifyPayload, jsonBuildObject, List.map_cons, List.map_nil,
    List.intercalate, List.intersperse, List.flatten_cons, List.flatten_nil, List.length_append,
    List.length_nil, length_escapeJson, MessageRow.otherLength, jsonLength_uuid,
    hname "id" (by decide), hname "seq" (by decide), hname "room_id" (by decide),
    hname "user_id" (by decide), hname "username" (by decide), hname "content" (by decide),
    hname "created_at" (by decide)]
  rw [show (JsString.utf8 (JsString.lit "\x7b")).length = 1 by decide,
    show (JsString.utf8 (JsString.lit "\x7d")).length = 1 by decide,
    show (JsString.utf8 (JsString.lit ", ")).length = 2 by decide,
    show (JsString.utf8 (JsString.lit " : ")).length = 3 by decide,
    show (JsString.lit "id").length = 2 by decide, show (JsString.lit "seq").length = 3 by decide,
    show (JsString.lit "room_id").length = 7 by decide,
    show (JsString.lit "user_id").length = 7 by decide,
    show (JsString.lit "username").length = 8 by decide,
    show (JsString.lit "content").length = 7 by decide,
    show (JsString.lit "created_at").length = 10 by decide]
  omega

/-! ## The steps PostgreSQL admits -/

namespace Db

/-- A text parameter has no NUL, and `pg_notify` takes the payload. -/
def Admits (timestamp : ℕ → JsString) (db : Db) : DbEvent → Prop
  | .beginInsert _ _ content => 0 ∉ content
  | .store t => ∀ row ∈ db.inserts[t]?.bind Insert.toStore, row.Notifiable timestamp
  | _ => True

instance (timestamp : ℕ → JsString) (db : Db) (e : DbEvent) :
    Decidable (db.Admits timestamp e) := by
  rcases e with _ | _ | _ | _ | _ | _ | _ | _ | _ | _ <;> dsimp only [Admits] <;> infer_instance

/-- The steps INSERT number `t` still has to take. -/
def rest (t : ℕ) : InsertStage → List DbEvent
  | .begun => [.assignSequence t, .setUsername t, .store t, .commit t]
  | .sequenced _ => [.setUsername t, .store t, .commit t]
  | .named .. => [.store t, .commit t]
  | .stored _ => [.commit t]
  | .committed _ | .aborted => []

/-- The row an INSERT in progress stores when nothing else happens before. -/
def rowOf (db : Db) (ins : Insert) : MessageRow :=
  match ins.stage with
  | .begun | .aborted =>
    ins.row ((db.roomSequences ins.roomId).getD 0) ((db.username ins.userId).getD [])
  | .sequenced seq => ins.row (seq.getD 0) ((db.username ins.userId).getD [])
  | .named seq username => ins.row (seq.getD 0) (username.getD [])
  | .stored row | .committed row => row

/-- INSERT number `t` can take the steps it still has to take, and is then committed. -/
def Commits (timestamp : ℕ → JsString) (db : Db) (t : ℕ) (ins : Insert) : Prop :=
  Guarded step (Admits timestamp) db (rest t ins.stage) ∧
    ∃ db', run step db (rest t ins.stage) = some db' ∧ db'.messages = db.messages ++ [db.rowOf ins]

/-- An INSERT of the message can begin, take its steps, and is then committed. -/
def InsertCommits (timestamp : ℕ → JsString) (db : Db) (r : Uuid) (u : UserId)
    (content : JsString) : Prop :=
  db.Admits timestamp (.beginInsert r u content) ∧
    ∀ db', db.step (.beginInsert r u content) = some db' →
      db'.Commits timestamp db.inserts.length (db.newInsert r u content)

variable {timestamp : ℕ → JsString} {db db' : Db} {r : Uuid} {u : UserId} {content : JsString}
  {t : ℕ} {ins : Insert}

/-! ## The invariant -/

/-- Nothing stands in the way of an INSERT but the payload: its foreign keys hold, its triggers have
found what they look for, and a stored row has been notified. -/
structure Sound (timestamp : ℕ → JsString) (db : Db) (ins : Insert) : Prop where
  refs : db.hasRefs ins.roomId ins.userId = true
  sequenced : ∀ seq, ins.stage = .sequenced seq → seq.isSome = true
  named : ∀ seq username, ins.stage = .named seq username →
    seq.isSome = true ∧ username.isSome = true
  stored : ∀ row, ins.stage = .stored row → row.Notifiable timestamp

/-- **Step lemma.** -/
theorem Sound.step (h : Sound timestamp db ins) (hinv : SeqInv db) {e : DbEvent}
    (hadmits : db.Admits timestamp e) (hstep : db.step e = some db')
    (hget : db.inserts[t]? = some ins) :
    ∃ ins', db'.inserts[t]? = some ins' ∧ Sound timestamp db' ins' := by
  obtain ⟨ins', hget', hmoves⟩ := moves_of_step hstep hget
  refine ⟨ins', hget', ?_⟩
  have hrefs := (keepsRefs_of_step hstep).hasRefs h.refs
  cases hmoves with
  | stays => exact ⟨hrefs, h.sequenced, h.named, h.stored⟩
  | assigned stage =>
    refine ⟨hrefs, ?_, by rintro _ _ ⟨⟩, by rintro _ ⟨⟩⟩
    rintro _ ⟨⟩
    rw [hinv.next, if_pos (hasRefs_iff.mp h.refs).1]
    rfl
  | named seq stage =>
    refine ⟨hrefs, by rintro _ ⟨⟩, ?_, by rintro _ ⟨⟩⟩
    rintro _ _ ⟨⟩
    obtain ⟨username, husername⟩ := exists_username h.refs
    exact ⟨h.sequenced seq stage, by rw [husername]; rfl⟩
  | stored row event stage =>
    refine ⟨hrefs, by rintro _ ⟨⟩, by rintro _ _ ⟨⟩, ?_⟩
    rintro _ ⟨⟩
    subst event
    refine hadmits row ?_
    rw [hget, Option.bind_some]
    exact stage
  | ended stage ended =>
    refine ⟨hrefs, fun seq hstage ↦ ?_, fun seq username hstage ↦ ?_, fun row hstage ↦ ?_⟩ <;>
    · rw [show stage = _ from hstage] at ended
      cases ended

/-! ## The steps of an INSERT -/

theorem commits_iff_of_step {e : DbEvent} {ins' : Insert} (hstep : db.step e = some db')
    (hrest : rest t ins.stage = e :: rest t ins'.stage) (hadmits : db.Admits timestamp e)
    (hmessages : db'.messages = db.messages) (hrow : db'.rowOf ins' = db.rowOf ins) :
    db.Commits timestamp t ins ↔ db'.Commits timestamp t ins' := by
  rw [Commits, Commits, hrest, guarded_cons, run_cons, hstep, Option.bind_some, hmessages, hrow]
  refine and_congr_left fun _ ↦ ⟨fun h ↦ h.2 db' rfl, fun h ↦ ⟨hadmits, fun db₁ hdb₁ ↦ ?_⟩⟩
  obtain rfl := Option.some.inj hdb₁
  exact h

theorem getElem?_setStage_self (hget : db.inserts[t]? = some ins) (stage : InsertStage) :
    (db.setStage t ins stage).inserts[t]? = some { ins with stage := stage } :=
  List.getElem?_set_self (List.getElem?_eq_some_iff.mp hget).1

/-- A stored row can be committed. -/
theorem commits_of_stored (hget : db.inserts[t]? = some ins) {row : MessageRow}
    (hstage : ins.stage = .stored row) : db.Commits timestamp t ins := by
  have hstep : db.step (.commit t) = some { db.setStage t ins (.committed row) with
      messages := db.messages ++ [row]
      roomSequences := Function.update db.roomSequences row.roomId (some (row.seq + 1)) } := by
    rw [step, apply, hget]
    dsimp only [Option.bind_eq_bind, Option.bind_some]
    rw [hstage]
    rfl
  rw [Commits, rowOf, hstage]
  exact ⟨⟨trivial, fun _ _ ↦ trivial⟩, _, run_cons_eq_some.mpr ⟨_, hstep, rfl⟩, rfl⟩

/-- A row can be stored when `pg_notify` takes it. -/
theorem commits_of_named (h : Sound timestamp db ins) (hinv : SeqInv db)
    (hget : db.inserts[t]? = some ins) {seq : Option ℕ} {username : Option JsString}
    (hstage : ins.stage = .named seq username) :
    db.Commits timestamp t ins ↔ (db.rowOf ins).Notifiable timestamp := by
  obtain ⟨hseq, husername⟩ := h.named seq username hstage
  obtain ⟨seq, rfl⟩ := Option.isSome_iff_exists.mp hseq
  obtain ⟨username, rfl⟩ := Option.isSome_iff_exists.mp husername
  have hrow : db.rowOf ins = ins.row seq username := by
    rw [rowOf, hstage]
    rfl
  have htoStore : db.inserts[t]?.bind Insert.toStore = some (ins.row seq username) := by
    rw [hget, Option.bind_some, Insert.toStore, hstage]
  have hunique : ∀ m ∈ db.messagesOf ins.roomId, m.seq ≠ seq := by
    intro m hm heq
    have hlocks : ins.locks ins.roomId := locks_iff.mpr
      ⟨rfl, by rw [hstage]; rfl, by rw [hstage]; rfl⟩
    have hnext := hinv.seq_of_locks hget hlocks
    rw [hstage, InsertStage.seq?, Option.some.injEq] at hnext
    have hmem := mem_seqs.mpr ⟨m, hm, heq⟩
    rw [hinv.range, List.mem_range'_1] at hmem
    omega
  have hstep : db.step (.store t) = some (db.setStage t ins (.stored (ins.row seq username))) := by
    rw [step, apply, hget]
    dsimp only [Option.bind_eq_bind, Option.bind_some]
    rw [hstage]
    dsimp only
    rw [guard, if_pos ⟨h.refs, hunique⟩]
    rfl
  have hrest : rest t ins.stage = .store t :: rest t (.stored (ins.row seq username)) := by
    rw [hstage]
    rfl
  rw [hrow]
  constructor
  · intro hcommits
    have hguard := hcommits.1
    rw [hrest, guarded_cons] at hguard
    exact hguard.1 _ htoStore
  · intro hnotifiable
    have hadmits : db.Admits timestamp (.store t) := by
      intro row hmem
      obtain rfl := Option.some.inj (htoStore.symm.trans hmem)
      exact hnotifiable
    have hstored : (db.setStage t ins (.stored (ins.row seq username))).rowOf
        { ins with stage := .stored (ins.row seq username) } = db.rowOf ins := hrow.symm
    exact (commits_iff_of_step hstep hrest hadmits rfl hstored).mpr
      (commits_of_stored (getElem?_setStage_self hget _) rfl)

theorem commits_of_sequenced (h : Sound timestamp db ins) (hinv : SeqInv db)
    (hget : db.inserts[t]? = some ins) {seq : Option ℕ} (hstage : ins.stage = .sequenced seq) :
    db.Commits timestamp t ins ↔ (db.rowOf ins).Notifiable timestamp := by
  have hstep : db.step (.setUsername t) =
      some (db.setStage t ins (.named seq (db.username ins.userId))) := by
    rw [step, apply, hget]
    dsimp only [Option.bind_eq_bind, Option.bind_some]
    rw [hstage]
    rfl
  have hget' := getElem?_setStage_self hget (.named seq (db.username ins.userId))
  have hrow : (db.setStage t ins (.named seq (db.username ins.userId))).rowOf
      { ins with stage := .named seq (db.username ins.userId) } = db.rowOf ins := by
    rw [rowOf, rowOf, hstage]
    rfl
  obtain ⟨ins', hins', hsound⟩ := h.step hinv (e := .setUsername t) trivial hstep hget
  obtain rfl := Option.some.inj (hget'.symm.trans hins')
  rw [commits_iff_of_step hstep (by rw [hstage]; rfl) trivial rfl hrow,
    commits_of_named hsound (hinv.step (seqStep_of_step hstep)) hget' rfl, hrow]

theorem commits_of_begun (h : Sound timestamp db ins) (hinv : SeqInv db)
    (hget : db.inserts[t]? = some ins) (hstage : ins.stage = .begun)
    (hfree : db.lockFree ins.roomId = true) :
    db.Commits timestamp t ins ↔ (db.rowOf ins).Notifiable timestamp := by
  have hstep : db.step (.assignSequence t) =
      some (db.setStage t ins (.sequenced (db.roomSequences ins.roomId))) := by
    rw [step, apply, hget]
    dsimp only [Option.bind_eq_bind, Option.bind_some]
    rw [guard, if_pos ⟨hstage, hfree⟩]
    rfl
  have hget' := getElem?_setStage_self hget (.sequenced (db.roomSequences ins.roomId))
  have hrow : (db.setStage t ins (.sequenced (db.roomSequences ins.roomId))).rowOf
      { ins with stage := .sequenced (db.roomSequences ins.roomId) } = db.rowOf ins := by
    rw [rowOf, rowOf, hstage]
    rfl
  obtain ⟨ins', hins', hsound⟩ := h.step hinv (e := .assignSequence t) trivial hstep hget
  obtain rfl := Option.some.inj (hget'.symm.trans hins')
  rw [commits_iff_of_step hstep (by rw [hstage]; rfl) trivial rfl hrow,
    commits_of_sequenced hsound (hinv.step (seqStep_of_step hstep)) hget' rfl, hrow]

/-- An INSERT in progress that does not wait for another can be committed when `pg_notify` takes its
row. -/
theorem Sound.commits_iff (h : Sound timestamp db ins) (hinv : SeqInv db)
    (hget : db.inserts[t]? = some ins) (hflight : ins.stage.inFlight = true)
    (hfree : ins.stage = .begun → db.lockFree ins.roomId = true) :
    db.Commits timestamp t ins ↔ (db.rowOf ins).Notifiable timestamp := by
  cases hstage : ins.stage with
  | begun => exact commits_of_begun h hinv hget hstage (hfree hstage)
  | sequenced seq => exact commits_of_sequenced h hinv hget hstage
  | named seq username => exact commits_of_named h hinv hget hstage
  | stored row =>
    rw [rowOf, hstage]
    exact iff_of_true (commits_of_stored hget hstage) (h.stored row hstage)
  | committed row =>
    rw [hstage] at hflight
    cases hflight
  | aborted =>
    rw [hstage] at hflight
    cases hflight

/-! ## Messages in general -/

theorem step_beginInsert (db : Db) (r : Uuid) (u : UserId) (content : JsString) :
    db.step (.beginInsert r u content) = some (db.addInsert (db.newInsert r u content)) := rfl

theorem getElem?_addInsert (db : Db) (ins : Insert) :
    (db.addInsert ins).inserts[db.inserts.length]? = some ins := List.getElem?_concat_length

theorem sound_newInsert (hrefs : db.hasRefs r u = true) :
    Sound timestamp (db.addInsert (db.newInsert r u content)) (db.newInsert r u content) :=
  ⟨hrefs, by rintro _ ⟨⟩, by rintro _ _ ⟨⟩, by rintro _ ⟨⟩⟩

/-- An INSERT that has begun holds no lock. -/
theorem lockFree_addInsert (hfree : db.lockFree r = true) :
    (db.addInsert (db.newInsert r u content)).lockFree r = true := by
  rw [lockFree_iff] at hfree ⊢
  intro ins hins
  rcases List.mem_append.mp hins with hins | hins
  · exact hfree ins hins
  · obtain rfl := List.mem_singleton.mp hins
    rw [Insert.locks, show (db.newInsert r u content).stage.seq? = none from rfl,
      Option.isSome_none, Bool.and_false]

theorem notifiable_iff {row : MessageRow} : row.Notifiable timestamp ↔
    jsonLength row.content + row.otherLength timestamp < notifyPayloadLimit := by
  rw [MessageRow.Notifiable, length_notifyPayload]

/-- The INSERT of a member's message, when no other transaction has the row of `room_sequences`. -/
theorem insertCommits_iff_of_lockFree {es : List DbEvent} (hrun : run step {} es = some db)
    (hmember : (r, u) ∈ db.roomMembers) (hfree : db.lockFree r = true) :
    db.InsertCommits timestamp r u content ↔ 0 ∉ content ∧
      jsonLength content + (db.rowOf (db.newInsert r u content)).otherLength timestamp <
        notifyPayloadLimit := by
  have hsound : Sound timestamp _ (db.newInsert r u content) :=
    sound_newInsert (hasRefs_of_mem hrun hmember)
  have hbegin := step_beginInsert db r u content
  have hinv := (seqInv_of_run hrun).step (seqStep_of_step hbegin)
  have hcommits := hsound.commits_iff hinv (getElem?_addInsert db _) rfl
    fun _ ↦ lockFree_addInsert hfree
  rw [InsertCommits, hbegin]
  refine and_congr Iff.rfl (Iff.trans ⟨fun h ↦ h _ rfl, ?_⟩ (hcommits.trans notifiable_iff))
  rintro h _ ⟨⟩
  exact h

/-- In every state that PostgreSQL reaches from the empty database: the INSERT of a message of a
member can begin, run and be committed exactly when the text has no NUL and is short enough, once
escaped, to leave room for the other values of the payload; and whatever other transactions do in
between, an INSERT that has begun and does not wait for the row of `room_sequences` can be committed
exactly when its row is that short. -/
theorem insert_commits_iff {es : List DbEvent} (hrun : run step {} es = some db)
    (hmember : (r, u) ∈ db.roomMembers) :
    (db.lockFree r = true →
      (db.InsertCommits timestamp r u content ↔ 0 ∉ content ∧
        jsonLength content + (db.rowOf (db.newInsert r u content)).otherLength timestamp <
          notifyPayloadLimit)) ∧
    ∀ es' db' ins, run step db (.beginInsert r u content :: es') = some db' →
      Guarded step (Admits timestamp) db (.beginInsert r u content :: es') →
      db'.inserts[db.inserts.length]? = some ins → ins.stage.inFlight = true →
      (ins.stage = .begun → db'.lockFree ins.roomId = true) →
      (db'.Commits timestamp db.inserts.length ins ↔
        jsonLength (db'.rowOf ins).content + (db'.rowOf ins).otherLength timestamp <
          notifyPayloadLimit) := by
  refine ⟨insertCommits_iff_of_lockFree hrun hmember,
    fun es' db' ins hrun' hguard hget' hflight hfree ↦ ?_⟩
  have hbegin := step_beginInsert db r u content
  obtain ⟨db₁, hdb₁, hrun'⟩ := run_cons_eq_some.mp hrun'
  obtain rfl := Option.some.inj (hbegin.symm.trans hdb₁)
  obtain ⟨hinv, ins', hins', hsound⟩ := guarded_invariant
    (fun db₂ : Db ↦ SeqInv db₂ ∧ ∃ ins', db₂.inserts[db.inserts.length]? = some ins' ∧
      Sound timestamp db₂ ins')
    (fun h hadmits hstep ↦ ⟨h.1.step (seqStep_of_step hstep), by
      obtain ⟨ins', hins', hsound⟩ := h.2
      exact hsound.step h.1 hadmits hstep hins'⟩)
    ⟨(seqInv_of_run hrun).step (seqStep_of_step hbegin), _, getElem?_addInsert db _,
      sound_newInsert (hasRefs_of_mem hrun hmember)⟩ (hguard.2 _ hbegin) hrun'
  obtain rfl := Option.some.inj (hins'.symm.trans hget')
  exact (hsound.commits_iff hinv hget' hflight hfree).trans notifiable_iff

/-- A user with the name `a` is the member of a room. -/
def oneMember : Db :=
  { users := [([0x61], [0x61])], rooms := [.nil], roomMembers := [(.nil, [0x61])]
    roomSequences := Function.update (fun _ ↦ none) .nil (some 1) }

theorem run_oneMember : run step {} [.createUser [0x61] [0x61], .createRoom .nil,
    .query (.insertMember Uuid.nil.text [0x61])] = some oneMember := by
  have hinsert : Db.step { oneMember with roomMembers := [] }
      (.query (.insertMember Uuid.nil.text [0x61])) = some oneMember := by
    have hrefs : Db.hasRefs { oneMember with roomMembers := [] } .nil [0x61] = true := by decide
    simp only [step, apply, exec, Uuid.parse_text, hrefs, Option.bind_eq_bind, Option.bind_some,
      guard_true, Option.pure_def, Option.map_some]
    rfl
  exact run_cons_eq_some.mpr ⟨_, rfl, run_cons_eq_some.mpr ⟨_, rfl,
    run_cons_eq_some.mpr ⟨_, hinsert, rfl⟩⟩⟩

/-- The member sends `a`, and nothing else goes on. -/
theorem insert_commits_a :
    oneMember.InsertCommits (fun _ ↦ JsString.lit "2026-01-01T00:00:00+00:00") .nil [0x61] [0x61] :=
  ((insert_commits_iff run_oneMember (List.mem_singleton.mpr rfl)).1 rfl).mpr
    ⟨by decide, by decide +kernel⟩

theorem validateSendMessagePayload_of_members {roomId content : JsString}
    (hroom : roomId.trim ≠ []) (hcontent : content.length ≤ maxMessageLength) :
    validateSendMessagePayload (some (.object
      [(JsString.lit "room_id", .string roomId), (JsString.lit "content", .string content)])) =
      .ok { roomId := roomId.trim, roomId_ne_nil := hroom, content
            length_content := hcontent } := by
  have hid : Json.member (JsString.lit "room_id") (.object
      [(JsString.lit "room_id", .string roomId), (JsString.lit "content", .string content)]) =
      some (.string roomId) := rfl
  have htext : Json.member (JsString.lit "content") (.object
      [(JsString.lit "room_id", .string roomId), (JsString.lit "content", .string content)]) =
      some (.string content) := rfl
  simp only [validateSendMessagePayload, validateObject, validateRoomId, hid, htext, dif_pos hroom,
    dif_pos hcontent, Except.bind, bind, pure, Except.pure]

/-- 8000 times `a`, and a NUL, are messages the handler accepts from the member. Neither can be
stored. -/
theorem long_message_not_stored :
    (∃ es, run step {} es = some oneMember) ∧ (.nil, [0x61]) ∈ oneMember.roomMembers ∧
      oneMember.lockFree .nil = true ∧ ∀ content ∈ [List.replicate 8000 0x61, [0]],
        (∃ payload, validateSendMessagePayload (some (.object
          [(JsString.lit "room_id", .string Uuid.nil.text),
            (JsString.lit "content", .string content)])) = .ok payload ∧
          handleSendMessage payload = { next := .await (.sendMember Uuid.nil.text content) }) ∧
        ∀ timestamp, ¬ oneMember.InsertCommits timestamp .nil [0x61] content := by
  refine ⟨⟨_, run_oneMember⟩, List.mem_singleton.mpr rfl, rfl, fun content hcontent ↦ ⟨?_, ?_⟩⟩
  · have hlength : content.length ≤ maxMessageLength := by
      rcases List.mem_pair.mp hcontent with rfl | rfl
      · rw [List.length_replicate]
        decide
      · decide
    exact ⟨_, validateSendMessagePayload_of_members (by decide) hlength,
      (handleSendMessage_eq _).trans rfl⟩
  · intro timestamp hcommits
    obtain ⟨hnul, hshort⟩ :=
      (insertCommits_iff_of_lockFree run_oneMember (List.mem_singleton.mpr rfl) rfl).mp hcommits
    rcases List.mem_pair.mp hcontent with rfl | rfl
    · rw [jsonLength_of_isPlain fun u hu ↦ (List.eq_of_mem_replicate hu) ▸ by decide,
        List.length_replicate, notifyPayloadLimit] at hshort
      omega
    · exact hnul List.mem_cons_self

end Db

end PostgresChat
