import PostgresChat.Database.Messages

/-!
# The order of assignment

The `seq` of a message is decided when the UPDATE of its INSERT gets the row of its room. Of two
INSERTs into one room, the one whose UPDATE ran first has the lower `seq` when both commit: it keeps
the row until it ends, so the other one finds its number committed (`Behind.step`). Where an INSERT
comes from and when it began have no part in this.
-/

namespace PostgresChat

namespace Db

/-- The `seq` assigned to INSERT number `t`, if there is one. -/
def seqOf (db : Db) (t : ℕ) : Option ℕ := db.inserts[t]?.bind fun ins ↦ ins.stage.seq?

/-- INSERT number `t` has its `seq`. -/
def Assigned (db : Db) (t : ℕ) : Prop := (db.seqOf t).isSome

instance (db : Db) (t : ℕ) : Decidable (db.Assigned t) :=
  inferInstanceAs (Decidable ((db.seqOf t).isSome = true))

/-- A committed INSERT has its row among the messages of its room. -/
def RowsStored (db : Db) : Prop :=
  ∀ (t : ℕ) (ins : Insert), db.inserts[t]? = some ins → ∀ row, ins.stage = .committed row →
    row ∈ db.messagesOf ins.roomId

/-- Whatever becomes of them, INSERT `t'` gets a higher `seq` than INSERT `t`. -/
structure Behind (db : Db) (t t' : ℕ) : Prop where
  seqInv : SeqInv db
  rowsStored : RowsStored db
  /-- INSERT `t` will not be assigned another `seq`. -/
  decided : ∃ ins, db.inserts[t]? = some ins ∧
    (ins.stage.seq?.isSome = true ∨ ins.stage.inFlight = false)
  lt : ∀ ins ins' : Insert, db.inserts[t]? = some ins → db.inserts[t']? = some ins' →
    ins.roomId = ins'.roomId → ∀ k k', ins.stage.seq? = some k → ins'.stage.seq? = some k' → k < k'

variable {db db' : Db} {t t' : ℕ}

theorem assigned_iff : db.Assigned t ↔ ∃ ins, db.inserts[t]? = some ins ∧
    ins.stage.seq?.isSome = true := by
  rw [Assigned, seqOf, Option.isSome_bind, Option.any_eq_true]

/-! ## What becomes of an INSERT -/

/-- An INSERT in the state after, with a `seq` that it had before if it has one. -/
def Kept (db db' : Db) (t : ℕ) : Prop :=
  ∀ ins', db'.inserts[t]? = some ins' → ∀ k, ins'.stage.seq? = some k →
    ∃ ins, db.inserts[t]? = some ins ∧ ins.roomId = ins'.roomId ∧ ins.stage.seq? = some k

theorem kept_of_inserts_eq (h : db'.inserts = db.inserts) (t : ℕ) : Kept db db' t :=
  fun ins' hget k hk ↦ ⟨ins', by rw [← h, hget], rfl, hk⟩

theorem kept_setStage {u : ℕ} {ins : Insert} {stage : InsertStage}
    (hget : db.inserts[u]? = some ins)
    (hseq : ∀ k, stage.seq? = some k → ins.stage.seq? = some k) (t : ℕ) :
    Kept db (db.setStage u ins stage) t := by
  intro ins' hget' k hk
  rcases getElem?_setStage hget' with ⟨rfl, rfl⟩ | ⟨-, hget'⟩
  · exact ⟨ins, hget, rfl, hseq k hk⟩
  · exact ⟨ins', hget', rfl, hk⟩

/-- The UPDATE of INSERT number `u` gets the row of its room. -/
def Assigns (db db' : Db) (u : ℕ) : Prop :=
  ∃ ins, db.inserts[u]? = some ins ∧ ins.stage = .begun ∧ db.lockFree ins.roomId = true ∧
    db' = db.setStage u ins (.sequenced (db.roomSequences ins.roomId))

theorem Assigns.kept {u : ℕ} (h : Assigns db db' u) (ht : t ≠ u) : Kept db db' t := by
  obtain ⟨ins, hget, -, -, hresult⟩ := h
  intro ins' hget' k hk
  rw [hresult] at hget'
  rcases getElem?_setStage hget' with ⟨rfl, -⟩ | ⟨-, hget'⟩
  · exact absurd rfl ht
  · exact ⟨ins', hget', rfl, hk⟩

/-- A step assigns a `seq` to one INSERT, or to none. -/
theorem assigns_or_kept (h : SeqStep db db') : (∃ u, Assigns db db' u) ∨ ∀ t, Kept db db' t := by
  cases h with
  | frame hrooms hsequences hmessages hinserts => exact Or.inr (kept_of_inserts_eq hinserts)
  | room id hfresh hrooms hsequences hmessages hinserts =>
    exact Or.inr (kept_of_inserts_eq hinserts)
  | begin ins hstage hrooms hsequences hmessages hinserts =>
    refine Or.inr fun t ins' hget k hk ↦ ?_
    rw [hinserts, Lists.getElem?_concat_eq_some] at hget
    rcases hget with hget | ⟨-, rfl⟩
    · exact ⟨ins', hget, rfl, hk⟩
    · rw [hstage] at hk
      cases hk
  | assign u ins hget hstage hfree hresult =>
    exact Or.inl ⟨u, ins, hget, hstage, hfree, hresult⟩
  | advance u ins hget stage hflight hflight' hseq hrow hresult =>
    rw [hresult]
    exact Or.inr (kept_setStage hget fun k hk ↦ hseq ▸ hk)
  | commit u ins hget row hstage hresult =>
    have hkept : ∀ t, Kept db (db.setStage u ins (.committed row)) t :=
      kept_setStage hget fun k hk ↦ by rw [hstage]; exact hk
    rw [hresult]
    exact Or.inr hkept
  | abort u ins hget hflight hresult =>
    rw [hresult]
    exact Or.inr (kept_setStage hget (by rintro k ⟨⟩))

theorem Kept.assigned (h : Kept db db' t) (hassigned : db'.Assigned t) : db.Assigned t := by
  obtain ⟨ins', hget', hsome⟩ := assigned_iff.mp hassigned
  obtain ⟨k, hk⟩ := Option.isSome_iff_exists.mp hsome
  obtain ⟨ins, hget, -, hseq⟩ := h ins' hget' k hk
  exact assigned_iff.mpr ⟨ins, hget, by rw [hseq]; rfl⟩

/-- Two INSERTs do not get their `seq` in one step. -/
theorem assigned_of_seqStep (h : SeqStep db db') (hne : t ≠ t') (hassigned : db'.Assigned t)
    (hassigned' : db'.Assigned t') : db.Assigned t ∨ db.Assigned t' := by
  rcases assigns_or_kept h with ⟨u, hassigns⟩ | hkept
  · by_cases ht : t = u
    · exact Or.inr ((hassigns.kept fun ht' ↦ hne (ht.trans ht'.symm)).assigned hassigned')
    · exact Or.inl ((hassigns.kept ht).assigned hassigned)
  · exact Or.inl ((hkept t).assigned hassigned)

/-- The parameters of an INSERT stay, and an INSERT stays decided. -/
theorem insert_of_seqStep (h : SeqStep db db') {ins : Insert} (hget : db.inserts[t]? = some ins) :
    ∃ ins', db'.inserts[t]? = some ins' ∧ ins'.roomId = ins.roomId ∧
      (ins.stage.seq?.isSome = true ∨ ins.stage.inFlight = false →
        ins'.stage.seq?.isSome = true ∨ ins'.stage.inFlight = false) := by
  have hset : ∀ (u : ℕ) (ins₀ : Insert) (stage : InsertStage), db.inserts[u]? = some ins₀ →
      (ins₀.stage.seq?.isSome = true ∨ ins₀.stage.inFlight = false →
        stage.seq?.isSome = true ∨ stage.inFlight = false) →
      ∃ ins', (db.setStage u ins₀ stage).inserts[t]? = some ins' ∧ ins'.roomId = ins.roomId ∧
        (ins.stage.seq?.isSome = true ∨ ins.stage.inFlight = false →
          ins'.stage.seq?.isSome = true ∨ ins'.stage.inFlight = false) := by
    intro u ins₀ stage hget₀ hdecided
    rw [setStage, List.getElem?_set]
    split
    · rename_i hu
      subst hu
      obtain rfl : ins₀ = ins := Option.some.inj (hget₀.symm.trans hget)
      rw [if_pos (List.getElem?_eq_some_iff.mp hget).1]
      exact ⟨_, rfl, rfl, hdecided⟩
    · exact ⟨ins, hget, rfl, id⟩
  cases h with
  | frame hrooms hsequences hmessages hinserts => exact ⟨ins, by rw [hinserts, hget], rfl, id⟩
  | room id hfresh hrooms hsequences hmessages hinserts =>
    exact ⟨ins, by rw [hinserts, hget], rfl, fun h ↦ h⟩
  | begin ins' hstage hrooms hsequences hmessages hinserts =>
    refine ⟨ins, ?_, rfl, id⟩
    rw [hinserts, List.getElem?_append_left (List.getElem?_eq_some_iff.mp hget).1, hget]
  | assign u ins₀ hget₀ hstage hfree hresult =>
    rw [hresult]
    refine hset u ins₀ _ hget₀ ?_
    rw [hstage]
    rintro (hsome | hended)
    · cases hsome
    · cases hended
  | advance u ins₀ hget₀ stage hflight hflight' hseq hrow hresult =>
    rw [hresult]
    refine hset u ins₀ stage hget₀ ?_
    rw [hseq, hflight, hflight']
    exact id
  | commit u ins₀ hget₀ row hstage hresult =>
    rw [hresult]
    exact hset u ins₀ (.committed row) hget₀ fun _ ↦ Or.inr rfl
  | abort u ins₀ hget₀ hflight hresult =>
    rw [hresult]
    exact hset u ins₀ .aborted hget₀ fun _ ↦ Or.inr rfl

theorem length_inserts_of_seqStep (h : SeqStep db db') :
    db.inserts.length ≤ db'.inserts.length := by
  by_contra hlt
  obtain ⟨ins', hget', -⟩ := insert_of_seqStep h (List.getElem?_eq_getElem (Nat.lt_of_not_le hlt))
  exact Nat.lt_irrefl _ (List.getElem?_eq_some_iff.mp hget').1

/-! ## Committed rows -/

theorem rowsStored_empty : RowsStored {} := by
  intro t ins hget
  simp at hget

theorem messagesOf_subset {rows : List MessageRow} (h : db'.messages = db.messages ++ rows)
    (r : Uuid) : db.messagesOf r ⊆ db'.messagesOf r := by
  intro row hrow
  rw [messagesOf, h, List.filter_append]
  exact List.mem_append_left _ hrow

theorem RowsStored.step (h : RowsStored db) (hinv : SeqInv db) (hstep : SeqStep db db') :
    RowsStored db' := by
  have hset : ∀ (u : ℕ) (ins₀ : Insert) (stage : InsertStage), (∀ row, stage ≠ .committed row) →
      RowsStored (db.setStage u ins₀ stage) := by
    intro u ins₀ stage hstage t ins hget row hrow
    rcases getElem?_setStage hget with ⟨rfl, rfl⟩ | ⟨-, hget⟩
    · exact absurd hrow (hstage row)
    · exact h t ins hget row hrow
  cases hstep with
  | frame hrooms hsequences hmessages hinserts =>
    intro t ins hget row hrow
    rw [hinserts] at hget
    exact messagesOf_subset (by rw [hmessages, List.append_nil]) _ (h t ins hget row hrow)
  | room id hfresh hrooms hsequences hmessages hinserts =>
    intro t ins hget row hrow
    rw [hinserts] at hget
    exact messagesOf_subset (by rw [hmessages, List.append_nil]) _ (h t ins hget row hrow)
  | begin ins₀ hstage hrooms hsequences hmessages hinserts =>
    intro t ins hget row hrow
    rw [hinserts, Lists.getElem?_concat_eq_some] at hget
    rcases hget with hget | ⟨-, rfl⟩
    · exact messagesOf_subset (by rw [hmessages, List.append_nil]) _ (h t ins hget row hrow)
    · rw [hstage] at hrow
      cases hrow
  | assign u ins₀ hget₀ hstage hfree hresult =>
    rw [hresult]
    exact hset u ins₀ _ (by rintro _ ⟨⟩)
  | advance u ins₀ hget₀ stage hflight hflight' hseq hrow hresult =>
    rw [hresult]
    refine hset u ins₀ stage fun row hstage ↦ ?_
    rw [hstage] at hflight'
    cases hflight'
  | commit u ins₀ hget₀ row₀ hstage hresult =>
    intro t ins hget row hrow
    have hmessages : db'.messages = db.messages ++ [row₀] := by rw [hresult]
    rw [hresult] at hget
    rcases getElem?_setStage hget with ⟨rfl, rfl⟩ | ⟨-, hget⟩
    · obtain rfl : row₀ = row := InsertStage.committed.inj hrow
      rw [messagesOf, hmessages, List.filter_append]
      refine List.mem_append_right _ (List.mem_filter.mpr ⟨List.mem_cons_self, ?_⟩)
      exact decide_eq_true (hinv.stored t ins₀ hget₀ row₀ hstage)
    · exact messagesOf_subset hmessages _ (h t ins hget row hrow)
  | abort u ins₀ hget₀ hflight hresult =>
    rw [hresult]
    exact hset u ins₀ .aborted (by rintro _ ⟨⟩)

/-! ## Who comes first -/

/-- A `seq` that is held while another transaction gets the row is a committed one. -/
theorem RowsStored.seq_mem (h : RowsStored db) {ins : Insert} (hget : db.inserts[t]? = some ins)
    {r : Uuid} (hroom : ins.roomId = r) (hfree : db.lockFree r = true) {k : ℕ}
    (hk : ins.stage.seq? = some k) : k ∈ db.seqs r := by
  have hended : ins.stage.inFlight = false := by
    by_contra hflight
    have hlocks : ins.locks r = true := locks_iff.mpr
      ⟨hroom, Bool.eq_true_of_not_eq_false hflight, by rw [hk]; rfl⟩
    rw [lockFree_iff.mp hfree ins (List.mem_of_getElem? hget)] at hlocks
    cases hlocks
  cases hstage : ins.stage with
  | committed row =>
    rw [hstage] at hk
    cases hk
    exact mem_seqs.mpr ⟨row, hroom ▸ h t ins hget row hstage, rfl⟩
  | aborted =>
    rw [hstage] at hk
    cases hk
  | begun => rw [hstage] at hended; cases hended
  | sequenced seq => rw [hstage] at hended; cases hended
  | named seq username => rw [hstage] at hended; cases hended
  | stored row => rw [hstage] at hended; cases hended

/-- The one INSERT has its `seq` and the other has not. -/
theorem behind_of_assigned (hinv : SeqInv db) (hrows : RowsStored db) (h : db.Assigned t)
    (h' : ¬ db.Assigned t') : Behind db t t' := by
  obtain ⟨ins, hget, hsome⟩ := assigned_iff.mp h
  refine ⟨hinv, hrows, ⟨ins, hget, Or.inl hsome⟩, fun _ ins' _ hget' _ k k' _ hk' ↦ ?_⟩
  exact absurd (assigned_iff.mpr ⟨ins', hget', by rw [hk']; rfl⟩) h'

/-- **Step lemma.** -/
theorem Behind.step (h : Behind db t t') (hstep : SeqStep db db') : Behind db' t t' := by
  obtain ⟨ins₀, hget₀, hdecided⟩ := h.decided
  obtain ⟨ins₁, hget₁, -, hdecided₁⟩ := insert_of_seqStep hstep hget₀
  refine ⟨h.seqInv.step hstep, h.rowsStored.step h.seqInv hstep, ⟨ins₁, hget₁, hdecided₁ hdecided⟩,
    fun ins ins' hget hget' hroom k k' hk hk' ↦ ?_⟩
  have hkeeps : Kept db db' t → Kept db db' t' → k < k' := by
    intro hkept hkept'
    obtain ⟨ins₂, hget₂, hroom₂, hseq₂⟩ := hkept ins hget k hk
    obtain ⟨ins₃, hget₃, hroom₃, hseq₃⟩ := hkept' ins' hget' k' hk'
    exact h.lt ins₂ ins₃ hget₂ hget₃ ((hroom₂.trans hroom).trans hroom₃.symm) k k' hseq₂ hseq₃
  rcases assigns_or_kept hstep with ⟨u, hassigns⟩ | hkept
  · have ht : t ≠ u := by
      rintro rfl
      obtain ⟨ins₂, hget₂, hbegun, -⟩ := hassigns
      obtain rfl : ins₀ = ins₂ := Option.some.inj (hget₀.symm.trans hget₂)
      rw [hbegun] at hdecided
      rcases hdecided with hsome | hended
      · cases hsome
      · cases hended
    by_cases ht' : t' = u
    · -- The row is free, so the `seq` of `t` is committed, and the next number is a higher one.
      subst ht'
      obtain ⟨ins₂, hget₂, hroom₂, hseq₂⟩ := hassigns.kept ht ins hget k hk
      obtain ⟨ins₃, hget₃, hbegun, hfree, hresult⟩ := hassigns
      have hins' : ins'.roomId = ins₃.roomId ∧
          ins'.stage.seq? = db.roomSequences ins₃.roomId := by
        rw [hresult] at hget'
        rcases getElem?_setStage hget' with ⟨-, rfl⟩ | ⟨hne, -⟩
        · exact ⟨rfl, rfl⟩
        · exact absurd rfl hne
      have hmem := h.rowsStored.seq_mem hget₂ (hroom₂.trans (hroom.trans hins'.1)) hfree hseq₂
      rw [h.seqInv.range, List.mem_range'_1] at hmem
      rw [hins'.2, h.seqInv.next] at hk'
      split at hk'
      · cases hk'
        omega
      · cases hk'
    · exact hkeeps (hassigns.kept ht) (hassigns.kept ht')
  · exact hkeeps (hkept t) (hkept t')

end Db

end PostgresChat
