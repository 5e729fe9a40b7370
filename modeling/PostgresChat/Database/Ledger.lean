import PostgresChat.Database.Steps

/-!
# The rows of `messages` and the INSERTs behind them

Every row of `messages` has been stored by one INSERT, with its parameters and the defaults it began
with. `Recorded` says so, and that the serial ids tell the INSERTs apart: a sequence gives no number
twice, not even after a rollback. The username a row carries is the one `set_message_username` has
looked up, and a name does not change.
-/

namespace PostgresChat

open Execution

/-- The row an INSERT has stored. -/
def Insert.row? (ins : Insert) : Option MessageRow :=
  match ins.stage with
  | .stored row | .committed row => some row
  | _ => none

namespace Db

variable {db db' : Db} {e : DbEvent} {t : ℕ} {ins ins' : Insert}

/-- An INSERT has found the name of its user, and has stored its parameters. -/
structure Accurate (db : Db) (ins : Insert) : Prop where
  named : ∀ seq username, ins.stage = .named seq (some username) →
    db.username ins.userId = some username
  row : ∀ row, ins.row? = some row →
    row = ins.row row.seq row.username ∧ db.username ins.userId = some row.username

/-- The rows of `messages` are those of the committed INSERTs, one for each. -/
structure Recorded (db : Db) : Prop where
  fresh : ∀ (t : ℕ) (ins : Insert), db.inserts[t]? = some ins → ins.id < db.nextMessageId
  distinct : ∀ (t t' : ℕ) (ins ins' : Insert), db.inserts[t]? = some ins →
    db.inserts[t']? = some ins' → ins.id = ins'.id → t = t'
  accurate : ∀ (t : ℕ) (ins : Insert), db.inserts[t]? = some ins → db.Accurate ins
  committed : ∀ row, row ∈ db.messages ↔
    ∃ (t : ℕ) (ins : Insert), db.inserts[t]? = some ins ∧ ins.stage = .committed row
  nodup : (db.messages.map MessageRow.id).Nodup

/-! ## What a step leaves -/

/-- A name that has been found is found again. -/
theorem KeepsRefs.username (h : KeepsRefs db db') {u : UserId} {username : JsString}
    (husername : db.username u = some username) : db'.username u = some username := by
  obtain ⟨l, hl⟩ := h.users
  obtain ⟨row, hrow, rfl⟩ := Option.map_eq_some_iff.mp husername
  rw [Db.username, hl, List.find?_append, hrow, Option.some_or, Option.map_some]

/-- An INSERT moves on in its stage only. -/
theorem Moves.params (h : Moves db e t ins ins') : ins' = { ins with stage := ins'.stage } := by
  cases h <;> rfl

theorem Moves.accurate (h : db.Accurate ins) (hmoves : Moves db e t ins ins') :
    db.Accurate ins' := by
  cases hmoves with
  | stays => exact h
  | assigned stage => exact ⟨by rintro _ _ ⟨⟩, by rintro _ ⟨⟩⟩
  | named seq stage =>
    refine ⟨fun seq' username hstage ↦ ?_, by rintro _ ⟨⟩⟩
    exact (InsertStage.named.inj hstage).2
  | stored row event stage =>
    refine ⟨by rintro _ _ ⟨⟩, ?_⟩
    rintro _ ⟨⟩
    rw [Insert.toStore] at stage
    split at stage
    · rename_i seq username hstage
      obtain rfl := Option.some.inj stage
      exact ⟨rfl, h.named _ _ hstage⟩
    · cases stage
  | ended stage ended flight row =>
    refine ⟨fun seq username hstage ↦ ?_, fun row' hrow ↦ ?_⟩
    · rw [show stage = _ from hstage] at ended
      cases ended
    · have hstage : stage = .committed row' := by
        cases stage <;> cases ended <;> cases hrow
        rfl
      exact h.row row' (by rw [Insert.row?, (row row' hstage).2])

theorem Accurate.of_keepsRefs (h : db.Accurate ins) (hkeeps : KeepsRefs db db') :
    db'.Accurate ins :=
  ⟨fun seq username hstage ↦ hkeeps.username (h.named seq username hstage),
    fun row hrow ↦ (h.row row hrow).imp_right hkeeps.username⟩

theorem row?_of_committed {row : MessageRow} (hstage : ins.stage = .committed row) :
    ins.row? = some row := by
  rw [Insert.row?, hstage]

/-- A row is that of its INSERT. -/
theorem Accurate.params (h : db.Accurate ins) {row : MessageRow} (hrow : ins.row? = some row) :
    ins.id = row.id ∧ ins.roomId = row.roomId ∧ ins.userId = row.userId ∧
      ins.content = row.content := by
  rw [(h.row row hrow).1]
  exact ⟨rfl, rfl, rfl, rfl⟩

/-- What is committed stays so. -/
theorem Moves.of_committed {row : MessageRow} (hmoves : Moves db e t ins ins')
    (hstage : ins.stage = .committed row) : ins' = ins := by
  cases hmoves with
  | stays => rfl
  | assigned stage => exact absurd (hstage.symm.trans stage) nofun
  | named seq stage => exact absurd (hstage.symm.trans stage) nofun
  | stored row event stage =>
    rw [Insert.toStore, hstage] at stage
    cases stage
  | ended stage ended flight =>
    rw [hstage] at flight
    cases flight

/-- Only a commit commits. -/
theorem Moves.committed_iff (hmoves : Moves db e t ins ins') (he : e ≠ .commit t)
    (row : MessageRow) : ins'.stage = .committed row ↔ ins.stage = .committed row := by
  refine ⟨fun hstage ↦ ?_, fun hstage ↦ by rw [hmoves.of_committed hstage, hstage]⟩
  cases hmoves with
  | stays => exact hstage
  | assigned => cases hstage
  | named => cases hstage
  | stored => cases hstage
  | ended stage ended flight hrow => exact absurd (hrow row hstage).1 he

/-! ## The invariant -/

theorem recorded_empty : Recorded {} :=
  ⟨by rintro _ _ ⟨⟩, by rintro _ _ _ _ ⟨⟩, by rintro _ _ ⟨⟩,
    fun row ↦ iff_of_false List.not_mem_nil (by rintro ⟨_, _, ⟨⟩, -⟩), List.nodup_nil⟩

/-- What an id says of its INSERT and of the next one. -/
theorem Recorded.ids_of_step (h : Recorded db) (hstep : db.step e = some db') :
    (∀ (t : ℕ) (ins : Insert), db'.inserts[t]? = some ins → ins.id < db'.nextMessageId) ∧
      ∀ (t t' : ℕ) (ins ins' : Insert), db'.inserts[t]? = some ins → db'.inserts[t']? = some ins' →
        ins.id = ins'.id → t = t' := by
  have hnext : db.nextMessageId ≤ db'.nextMessageId := by
    cases did_of_step hstep with
    | beginInsert r u content => exact Nat.le_succ _
    | query q _ ran => cases ran <;> exact le_rfl
    | _ => exact le_rfl
  have hold : ∀ {t : ℕ} {ins' : Insert}, db'.inserts[t]? = some ins' →
      (∃ ins, db.inserts[t]? = some ins ∧ ins'.id = ins.id) ∨
        t = db.inserts.length ∧ ins'.id = db.nextMessageId ∧
          db.nextMessageId < db'.nextMessageId := by
    intro t ins' hget'
    rcases insert_of_step hstep hget' with ⟨ins, hget, hmoves⟩ | ⟨r, u, content, rfl, ht, rfl⟩
    · exact Or.inl ⟨ins, hget, by rw [hmoves.params]⟩
    · obtain rfl := Option.some.inj hstep
      exact Or.inr ⟨ht, rfl, Nat.lt_succ_self _⟩
  refine ⟨fun t ins' hget' ↦ ?_, fun t₁ t₂ ins₁' ins₂' hget₁' hget₂' hid ↦ ?_⟩
  · rcases hold hget' with ⟨ins, hget, hid⟩ | ⟨-, hid, hlt⟩
    · exact hid ▸ (h.fresh t ins hget).trans_le hnext
    · exact hid ▸ hlt
  · rcases hold hget₁' with ⟨ins₁, hget₁, hid₁⟩ | ⟨rfl, hid₁, -⟩ <;>
      rcases hold hget₂' with ⟨ins₂, hget₂, hid₂⟩ | ⟨rfl, hid₂, -⟩
    · exact h.distinct t₁ t₂ ins₁ ins₂ hget₁ hget₂ (hid₁.symm.trans (hid.trans hid₂))
    · have := h.fresh t₁ ins₁ hget₁
      omega
    · have := h.fresh t₂ ins₂ hget₂
      omega
    · rfl

/-- A commit adds its row, and nothing else does. -/
theorem Recorded.messages_of_step (h : Recorded db) (hstep : db.step e = some db') :
    (∀ row, row ∈ db'.messages ↔
      ∃ (t : ℕ) (ins : Insert), db'.inserts[t]? = some ins ∧ ins.stage = .committed row) ∧
      (db'.messages.map MessageRow.id).Nodup := by
  have hsame : db'.inserts = db.inserts → db'.messages = db.messages →
      (∀ row, row ∈ db'.messages ↔
        ∃ (t : ℕ) (ins : Insert), db'.inserts[t]? = some ins ∧ ins.stage = .committed row) ∧
        (db'.messages.map MessageRow.id).Nodup := by
    intro hinserts hmessages
    rw [hinserts, hmessages]
    exact ⟨h.committed, h.nodup⟩
  cases did_of_step hstep with
  | tick => exact hsame rfl rfl
  | createUser => exact hsame rfl rfl
  | createRoom => exact hsame rfl rfl
  | query q _ ran => cases ran <;> exact hsame rfl rfl
  | beginInsert r u content =>
    refine ⟨fun row ↦ (h.committed row).trans ?_, h.nodup⟩
    constructor
    · rintro ⟨t, ins, hget, hstage⟩
      refine ⟨t, ins, ?_, hstage⟩
      exact (List.getElem?_append_left (List.getElem?_eq_some_iff.mp hget).1).trans hget
    · rintro ⟨t, ins, hget, hstage⟩
      rcases Lists.getElem?_concat_eq_some.mp hget with hget | ⟨-, rfl⟩
      · exact ⟨t, ins, hget, hstage⟩
      · cases hstage
  | moved _ t₀ ins₀ ins₀' get moves event =>
    refine ⟨fun row ↦ (h.committed row).trans ?_, h.nodup⟩
    have hset : ∀ t, t ≠ t₀ → (db.inserts.set t₀ ins₀')[t]? = db.inserts[t]? :=
      fun t ht ↦ List.getElem?_set_ne ht.symm
    have hself : (db.inserts.set t₀ ins₀')[t₀]? = some ins₀' :=
      List.getElem?_set_self (List.getElem?_eq_some_iff.mp get).1
    constructor
    · rintro ⟨t, ins, hget, hstage⟩
      by_cases ht : t = t₀
      · subst ht
        obtain rfl := Option.some.inj (get.symm.trans hget)
        exact ⟨t, ins₀', hself, (moves.committed_iff event row).mpr hstage⟩
      · exact ⟨t, ins, (hset t ht).trans hget, hstage⟩
    · rintro ⟨t, ins, hget, hstage⟩
      by_cases ht : t = t₀
      · subst ht
        obtain rfl := Option.some.inj (hself.symm.trans hget)
        exact ⟨t, ins₀, get, (moves.committed_iff event row).mp hstage⟩
      · exact ⟨t, ins, (hset t ht).symm.trans hget, hstage⟩
  | commit t₀ ins₀ row₀ get stage =>
    have hrow₀ : ins₀.row? = some row₀ := by rw [Insert.row?, stage]
    have hid := ((h.accurate t₀ ins₀ get).params hrow₀).1
    constructor
    · intro row
      rw [show ({ db.setStage t₀ ins₀ (.committed row₀) with
        messages := db.messages ++ [row₀]
        roomSequences := _ } : Db).messages = db.messages ++ [row₀] from rfl, List.mem_append,
        List.mem_singleton, h.committed]
      constructor
      · rintro (⟨t, ins, hget, hstage⟩ | rfl)
        · have ht : t ≠ t₀ := by
            rintro rfl
            obtain rfl := Option.some.inj (get.symm.trans hget)
            rw [stage] at hstage
            cases hstage
          exact ⟨t, ins, (List.getElem?_set_ne ht.symm).trans hget, hstage⟩
        · exact ⟨t₀, _, List.getElem?_set_self (List.getElem?_eq_some_iff.mp get).1, rfl⟩
      · rintro ⟨t, ins, hget, hstage⟩
        rcases getElem?_setStage hget with ⟨-, rfl⟩ | ⟨-, hget⟩
        · exact Or.inr (InsertStage.committed.inj hstage).symm
        · exact Or.inl ⟨t, ins, hget, hstage⟩
    · -- Another row of that id would be of the same INSERT, which has not been committed before.
      refine (List.map_append ▸ List.nodup_append.mpr ⟨h.nodup, List.nodup_singleton _, ?_⟩ :
        ((db.messages ++ [row₀]).map MessageRow.id).Nodup)
      rintro _ hmem _ hnew rfl
      obtain ⟨row, hrow, heq⟩ := List.mem_map.mp hmem
      obtain ⟨t, ins, hget, hstage⟩ := (h.committed row).mp hrow
      have hid' := ((h.accurate t ins hget).params (row?_of_committed hstage)).1
      have hnew := List.mem_singleton.mp hnew
      obtain rfl := h.distinct t t₀ ins ins₀ hget get (by rw [hid', hid, heq, hnew])
      obtain rfl := Option.some.inj (get.symm.trans hget)
      rw [stage] at hstage
      cases hstage

/-- **Step lemma.** -/
theorem Recorded.step (h : Recorded db) (hstep : db.step e = some db') : Recorded db' := by
  obtain ⟨hfresh, hdistinct⟩ := h.ids_of_step hstep
  obtain ⟨hcommitted, hnodup⟩ := h.messages_of_step hstep
  refine ⟨hfresh, hdistinct, fun t ins' hget' ↦ ?_, hcommitted, hnodup⟩
  rcases insert_of_step hstep hget' with ⟨ins, hget, hmoves⟩ | ⟨r, u, content, -, -, rfl⟩
  · exact (hmoves.accurate (h.accurate t ins hget)).of_keepsRefs (keepsRefs_of_step hstep)
  · exact ⟨by rintro _ _ ⟨⟩, by rintro _ ⟨⟩⟩

/-- A row of `messages` has been committed by one INSERT. -/
theorem Recorded.unique (h : Recorded db) {row : MessageRow} (hget : db.inserts[t]? = some ins)
    (hstage : ins.stage = .committed row) {t' : ℕ} (hget' : db.inserts[t']? = some ins')
    (hstage' : ins'.stage = .committed row) : t = t' := by
  have hid := ((h.accurate t ins hget).params (row?_of_committed hstage)).1
  have hid' := ((h.accurate t' ins' hget').params (row?_of_committed hstage')).1
  exact h.distinct t t' ins ins' hget hget' (hid.trans hid'.symm)

/-- A committed INSERT stays where it is. -/
theorem committed_of_step (hstep : db.step e = some db') {row : MessageRow}
    (hget : db.inserts[t]? = some ins) (hstage : ins.stage = .committed row) :
    db'.inserts[t]? = some ins := by
  obtain ⟨ins', hget', hmoves⟩ := moves_of_step hstep hget
  rw [hget', hmoves.of_committed hstage]

end Db

end PostgresChat
