import PostgresChat.Database.Assignment
import PostgresChat.Node.Tasks

/-!
# The order of one sender's messages

A `send_message` frame starts a handler of its own, and nothing makes the handler of one frame wait
for that of the frame before: each awaits the membership check and then its INSERT, on whatever
connections of the pool these two statements run. Handlers are numbered in the order of their frames
(`Node.tasks`), INSERTs in the order they begin, and the `seq` values follow neither. They follow
the order in which the INSERTs get the `room_sequences` row (`Precedes`). That is the order of the
frames when the later frame arrives after the earlier message has been inserted (`InsertedBefore`).
-/

namespace PostgresChat

open Execution

/-- The room of the message whose INSERT the handler is about to begin. -/
def Task.inserting (task : Task) : Option RoomId :=
  match task.state with
  | .awaiting (.sendInsert R _) .query => some R
  | _ => none

namespace Node

/-- Handler `k` is about to begin INSERT number `t`: of a message for room `R`, whose `send_message`
came from socket `s`. -/
def BeginsNext (n : Node) (k : ℕ) (s : SocketId) (R : RoomId) (t : ℕ) : Prop :=
  ∃ task ∈ n.tasks[k]?, task.socket = s ∧ task.inserting = some R ∧
    (Uuid.parse R).isSome = true ∧ n.db.inserts.length = t

instance (n : Node) (k : ℕ) (s : SocketId) (R : RoomId) (t : ℕ) :
    Decidable (n.BeginsNext k s R t) :=
  inferInstanceAs (Decidable (∃ task ∈ n.tasks[k]?, task.socket = s ∧ task.inserting = some R ∧
    (Uuid.parse R).isSome = true ∧ n.db.inserts.length = t))

/-- Along the run, handler `k` begins INSERT number `t`. -/
def Begins (nodeId : JsString) (es : List Event) (k : ℕ) (s : SocketId) (R : RoomId) (t : ℕ) :
    Prop :=
  ∃ pre post m, es = pre ++ .beginInsert k :: post ∧ run step (start nodeId) pre = some m ∧
    m.BeginsNext k s R t

/-- INSERT number `t` commits with the row `row`. -/
def Commits (n : Node) (t : ℕ) (row : MessageRow) : Prop :=
  n.db.inserts[t]?.map Insert.stage = some (.committed row)

instance (n : Node) (t : ℕ) (row : MessageRow) : Decidable (n.Commits t row) :=
  inferInstanceAs (Decidable (n.db.inserts[t]?.map Insert.stage = some (.committed row)))

/-- At some moment of the run INSERT number `t` has got the `room_sequences` row, and INSERT number
`t'` has not. -/
def Precedes (nodeId : JsString) (es : List Event) (t t' : ℕ) : Prop :=
  ∃ pre post m, es = pre ++ post ∧ run step (start nodeId) pre = some m ∧
    m.db.Assigned t ∧ ¬ m.db.Assigned t'

/-- At some moment of the run INSERT number `t` has committed, and the frame of handler `k'` has not
arrived. -/
def InsertedBefore (nodeId : JsString) (es : List Event) (t k' : ℕ) : Prop :=
  ∃ pre post m row, es = pre ++ post ∧ run step (start nodeId) pre = some m ∧
    m.Commits t row ∧ m.tasks.length ≤ k'

/-- The messages that one socket sends to one room are numbered in the order of their frames. -/
def SentInOrder (nodeId : JsString) (es : List Event) (n : Node) : Prop :=
  ∀ k k' s R t t' row row', k < k' → Begins nodeId es k s R t → Begins nodeId es k' s R t' →
    n.Commits t row → n.Commits t' row' → row.seq < row'.seq

variable {nodeId : JsString} {n n' : Node} {es : List Event} {k k' : ℕ} {s : SocketId} {R : RoomId}
  {t t' : ℕ} {row row' : MessageRow}

/-! ## The room of an INSERT -/

/-- The INSERT number `t` is one into room `r`. -/
def Targets (n : Node) (t : ℕ) (r : Uuid) : Prop :=
  ∃ ins, n.db.inserts[t]? = some ins ∧ ins.roomId = r

theorem Targets.step {r : Uuid} (h : n.Targets t r) {e : Event} (hstep : n.step e = some n') :
    n'.Targets t r := by
  obtain ⟨ins, hget, hroom⟩ := h
  rcases seqStep_of_step hstep with hsame | hseq
  · exact ⟨ins, by rw [hsame, hget], hroom⟩
  · obtain ⟨ins', hget', hroom', -⟩ := Db.insert_of_seqStep hseq hget
    exact ⟨ins', hget', hroom'.trans hroom⟩

/-- The INSERT of a handler is one into the room of its frame. -/
theorem Begins.targets (h : Begins nodeId es k s R t) (hrun : run step (start nodeId) es = some n) :
    ∃ r, Uuid.parse R = some r ∧ n.Targets t r := by
  obtain ⟨pre, post, m, rfl, hpre, task, hget, -, hinserting, hparse, rfl⟩ := h
  obtain ⟨content, hstate⟩ : ∃ content, task.state = .awaiting (.sendInsert R content) .query := by
    rw [Task.inserting] at hinserting
    split at hinserting
    · rename_i R' content hstate
      cases hinserting
      exact ⟨content, hstate⟩
    · cases hinserting
  rw [Option.mem_def] at hget
  obtain ⟨r, hr⟩ := Option.isSome_iff_exists.mp hparse
  obtain ⟨m₀, hm₀, hrest⟩ := run_append_eq_some.mp hrun
  obtain rfl : m = m₀ := Option.some.inj (hpre.symm.trans hm₀)
  obtain ⟨m', hbegin, hpost⟩ := run_cons_eq_some.mp hrest
  have hbegun : m'.Targets m.db.inserts.length r := by
    simp only [step, hget, Option.bind_eq_bind, Option.bind_some, hstate, Node.beginInsert, hr,
      Db.apply] at hbegin
    cases hbegin
    exact ⟨_, List.getElem?_concat_length, rfl⟩
  exact ⟨r, hr, run_invariant (fun n ↦ n.Targets m.db.inserts.length r)
    (fun h hstep ↦ h.step hstep) hbegun hpost⟩

/-! ## Who comes first -/

/-- What the database keeps to along every run. -/
theorem stored_of_run (hrun : run step (start nodeId) es = some n) :
    n.db.SeqInv ∧ n.db.RowsStored := by
  refine run_invariant (fun n ↦ n.db.SeqInv ∧ n.db.RowsStored) ?_
    ⟨Db.seqInv_empty, Db.rowsStored_empty⟩ hrun
  rintro m e m' ⟨hinv, hrows⟩ hstep
  rcases seqStep_of_step hstep with hsame | hseq
  · rw [hsame]
    exact ⟨hinv, hrows⟩
  · exact ⟨hinv.step hseq, hrows.step hinv hseq⟩

theorem behind_of_precedes (hrun : run step (start nodeId) es = some n)
    (h : Precedes nodeId es t t') : n.db.Behind t t' := by
  obtain ⟨pre, post, m, rfl, hpre, hassigned, hnot⟩ := h
  obtain ⟨m₀, hm₀, hpost⟩ := run_append_eq_some.mp hrun
  obtain rfl : m = m₀ := Option.some.inj (hpre.symm.trans hm₀)
  obtain ⟨hinv, hrows⟩ := stored_of_run hpre
  refine run_invariant (fun n ↦ n.db.Behind t t') ?_
    (Db.behind_of_assigned hinv hrows hassigned hnot) hpost
  intro m' e m'' hbehind hstep
  rcases seqStep_of_step hstep with hsame | hseq
  · rw [hsame]
    exact hbehind
  · exact hbehind.step hseq

/-- Two INSERTs do not get their `seq` at the same moment: one has it when the other has not. -/
theorem exists_assigned_first {m : Node} (hrun : run step m es = some n) (hne : t ≠ t')
    (h : ¬ m.db.Assigned t ∧ ¬ m.db.Assigned t') (hassigned : n.db.Assigned t) :
    ∃ pre post m', es = pre ++ post ∧ run step m pre = some m' ∧
      (m'.db.Assigned t ∧ ¬ m'.db.Assigned t' ∨ m'.db.Assigned t' ∧ ¬ m'.db.Assigned t) := by
  induction es generalizing m with
  | nil =>
    cases hrun
    exact absurd hassigned h.1
  | cons e es ih =>
    obtain ⟨m₁, hstep, hrest⟩ := run_cons_eq_some.mp hrun
    by_cases h₁ : ¬ m₁.db.Assigned t ∧ ¬ m₁.db.Assigned t'
    · obtain ⟨pre, post, m', rfl, hpre, hfirst⟩ := ih hrest h₁
      exact ⟨e :: pre, post, m', rfl, run_cons_eq_some.mpr ⟨m₁, hstep, hpre⟩, hfirst⟩
    · -- The step gives one of them its `seq`, and no step gives it to both.
      refine ⟨[e], es, m₁, rfl, run_cons_eq_some.mpr ⟨m₁, hstep, rfl⟩, ?_⟩
      have hboth : ¬ (m₁.db.Assigned t ∧ m₁.db.Assigned t') := by
        rintro ⟨ht, ht'⟩
        rcases seqStep_of_step hstep with hsame | hseq
        · exact h.1 (hsame ▸ ht)
        · exact (Db.assigned_of_seqStep hseq hne ht ht').elim h.1 h.2
      tauto

theorem Commits.get (h : n.Commits t row) :
    ∃ ins, n.db.inserts[t]? = some ins ∧ ins.stage.seq? = some row.seq := by
  obtain ⟨ins, hget, hstage⟩ := Option.map_eq_some_iff.mp h
  exact ⟨ins, hget, by rw [hstage]; rfl⟩

theorem Commits.assigned (h : n.Commits t row) : n.db.Assigned t := by
  obtain ⟨ins, hget, hseq⟩ := h.get
  exact Db.assigned_iff.mpr ⟨ins, hget, by rw [hseq]; rfl⟩

theorem lt_of_precedes (hrun : run step (start nodeId) es = some n)
    (h : Begins nodeId es k s R t) (h' : Begins nodeId es k' s R t') (hrow : n.Commits t row)
    (hrow' : n.Commits t' row') (hfirst : Precedes nodeId es t t') : row.seq < row'.seq := by
  obtain ⟨ins, hget, hseq⟩ := hrow.get
  obtain ⟨ins', hget', hseq'⟩ := hrow'.get
  obtain ⟨r, hr, ins₁, hget₁, hroom⟩ := h.targets hrun
  obtain ⟨r', hr', ins₁', hget₁', hroom'⟩ := h'.targets hrun
  obtain rfl : ins = ins₁ := Option.some.inj (hget.symm.trans hget₁)
  obtain rfl : ins' = ins₁' := Option.some.inj (hget'.symm.trans hget₁')
  have hrooms : ins.roomId = ins'.roomId := by
    rw [hroom, hroom', Option.some.inj (hr.symm.trans hr')]
  exact (behind_of_precedes hrun hfirst).lt ins ins' hget hget' hrooms _ _ hseq hseq'

/-! ## The order of the frames -/

/-- Handlers and INSERTs only get more. -/
theorem length_le_of_run {m : Node} (hrun : run step m es = some n) :
    m.tasks.length ≤ n.tasks.length ∧ m.db.inserts.length ≤ n.db.inserts.length := by
  refine run_invariant (fun n ↦ m.tasks.length ≤ n.tasks.length ∧
    m.db.inserts.length ≤ n.db.inserts.length) ?_ ⟨Nat.le_refl _, Nat.le_refl _⟩ hrun
  rintro n₁ e n₂ ⟨htasks, hinserts⟩ hstep
  refine ⟨htasks.trans (length_tasks_of_step hstep), hinserts.trans ?_⟩
  rcases seqStep_of_step hstep with hsame | hseq
  · rw [hsame]
  · exact Db.length_inserts_of_seqStep hseq

/-- An INSERT that begins after the frame of its handler has arrived begins after those that have
committed before the frame. -/
theorem precedes_of_insertedBefore (h' : Begins nodeId es k' s R t')
    (hbefore : InsertedBefore nodeId es t k') : Precedes nodeId es t t' := by
  obtain ⟨pre, post, m, row, rfl, hpre, hrow, hlength⟩ := hbefore
  obtain ⟨pre', post', m', hes, hpre', task, hget, -, -, -, hbegins⟩ := h'
  refine ⟨pre, post, m, rfl, hpre, hrow.assigned, fun hassigned ↦ ?_⟩
  obtain ⟨ins', hget', -⟩ := Db.assigned_iff.mp hassigned
  have hbegun : t' < m.db.inserts.length := (List.getElem?_eq_some_iff.mp hget').1
  have harrived : k' < m'.tasks.length := (List.getElem?_eq_some_iff.mp hget).1
  rcases List.append_eq_append_iff.mp hes with ⟨rest, rfl, -⟩ | ⟨rest, rfl, -⟩
  · -- INSERT `t'` begins after `m`, with a number that `m` has given already.
    obtain ⟨m₁, hm₁, hrest⟩ := run_append_eq_some.mp hpre'
    obtain rfl : m = m₁ := Option.some.inj (hpre.symm.trans hm₁)
    have := (length_le_of_run hrest).2
    omega
  · -- It begins before `m`, where its frame has not arrived.
    obtain ⟨m₁, hm₁, hrest⟩ := run_append_eq_some.mp hpre
    obtain rfl : m' = m₁ := Option.some.inj (hpre'.symm.trans hm₁)
    have := (length_le_of_run hrest).1
    omega

/-- Of two messages that a socket sends to a room, in whatever order their statements run, the one
whose INSERT gets the `room_sequences` row first has the lower `seq`, if both are inserted. It is
the one that is sent first when the other is sent only after it has been inserted. -/
theorem seq_lt_iff_precedes (hrun : run step (start nodeId) es = some n)
    (h : Begins nodeId es k s R t) (h' : Begins nodeId es k' s R t') (hrow : n.Commits t row)
    (hrow' : n.Commits t' row') :
    (row.seq < row'.seq ↔ Precedes nodeId es t t') ∧
      (InsertedBefore nodeId es t k' → Precedes nodeId es t t' ∧ row.seq < row'.seq) := by
  have hlt := lt_of_precedes hrun h h' hrow hrow'
  refine ⟨⟨fun hseq ↦ ?_, hlt⟩, fun hbefore ↦ ?_⟩
  · have hne : t ≠ t' := by
      rintro rfl
      obtain rfl := InsertStage.committed.inj (Option.some.inj (hrow.symm.trans hrow'))
      exact Nat.lt_irrefl _ hseq
    -- One of the two comes first. Had it been `t'`, the order would be the other one.
    obtain ⟨pre, post, m, rfl, hpre, ⟨ht, ht'⟩ | ⟨ht', ht⟩⟩ := exists_assigned_first hrun hne
      ⟨nofun, nofun⟩ hrow.assigned
    · exact ⟨pre, post, m, rfl, hpre, ht, ht'⟩
    · have hgt := lt_of_precedes hrun h' h hrow' hrow ⟨pre, post, m, rfl, hpre, ht', ht⟩
      exact absurd hseq (Nat.lt_asymm hgt)
  · have hprecedes := precedes_of_insertedBefore h' hbefore
    exact ⟨hprecedes, hlt hprecedes⟩

/-- A member connects and sends two messages, and both pass the membership check. -/
def twoMessages : List Event :=
  [.db (.createUser [0x61] [0x61]), .db (.createRoom .nil),
    .db (.query (.insertMember Uuid.nil.text [0x61])), .connect [0x61],
    .frame 0 (.sendMessage ⟨⟨Uuid.nil.text, by decide⟩, [0x62], by decide⟩),
    .frame 0 (.sendMessage ⟨⟨Uuid.nil.text, by decide⟩, [0x63], by decide⟩),
    .runQuery 0 .answered, .runQuery 1 .answered, .resume 0, .resume 1]

/-- INSERT number `t` runs to its end. -/
def insertion (t : ℕ) : List Event :=
  [.db (.assignSequence t), .db (.setUsername t), .db (.store t), .db (.commit t)]

theorem begins_twoMessages (rest : List Event) :
    Begins [] (twoMessages ++ .beginInsert 0 :: .beginInsert 1 :: rest) 0 0 Uuid.nil.text 0 ∧
      Begins [] (twoMessages ++ .beginInsert 0 :: .beginInsert 1 :: rest) 1 0 Uuid.nil.text 1 := by
  obtain ⟨m, hm, hbegins⟩ : ∃ m, run step (start []) twoMessages = some m ∧
      m.BeginsNext 0 0 Uuid.nil.text 0 :=
    exists_run_of_any (fun m : Node ↦ m.BeginsNext 0 0 Uuid.nil.text 0) (by decide) fun _ _ h ↦ h
  obtain ⟨m', hm', hbegins'⟩ : ∃ m, run step (start []) (twoMessages ++ [.beginInsert 0]) = some m ∧
      m.BeginsNext 1 0 Uuid.nil.text 1 :=
    exists_run_of_any (fun m : Node ↦ m.BeginsNext 1 0 Uuid.nil.text 1) (by decide) fun _ _ h ↦ h
  exact ⟨⟨_, _, m, rfl, hm, hbegins⟩,
    ⟨twoMessages ++ [.beginInsert 0], rest, m', List.append_cons _ _ _, hm', hbegins'⟩⟩

/-- A member connects and sends a message, which is inserted. -/
def firstMessage : List Event :=
  [.db (.createUser [0x61] [0x61]), .db (.createRoom .nil),
    .db (.query (.insertMember Uuid.nil.text [0x61])), .connect [0x61],
    .frame 0 (.sendMessage ⟨⟨Uuid.nil.text, by decide⟩, [0x62], by decide⟩),
    .runQuery 0 .answered, .resume 0] ++ .beginInsert 0 :: insertion 0

/-- The member sends another message, and it passes the membership check. -/
def secondMessage : List Event :=
  [.frame 0 (.sendMessage ⟨⟨Uuid.nil.text, by decide⟩, [0x63], by decide⟩),
    .runQuery 1 .answered, .resume 1]

theorem begins_secondMessage (rest : List Event) :
    Begins [] (firstMessage ++ (secondMessage ++ .beginInsert 1 :: rest)) 0 0 Uuid.nil.text 0 ∧
      Begins [] (firstMessage ++ (secondMessage ++ .beginInsert 1 :: rest)) 1 0 Uuid.nil.text
        1 := by
  obtain ⟨m, hm, hbegins⟩ : ∃ m, run step (start []) (firstMessage.take 7) = some m ∧
      m.BeginsNext 0 0 Uuid.nil.text 0 :=
    exists_run_of_any (fun m : Node ↦ m.BeginsNext 0 0 Uuid.nil.text 0) (by decide) fun _ _ h ↦ h
  obtain ⟨m', hm', hbegins'⟩ : ∃ m, run step (start []) (firstMessage ++ secondMessage) = some m ∧
      m.BeginsNext 1 0 Uuid.nil.text 1 :=
    exists_run_of_any (fun m : Node ↦ m.BeginsNext 1 0 Uuid.nil.text 1) (by decide) fun _ _ h ↦ h
  exact ⟨⟨_, insertion 0 ++ (secondMessage ++ .beginInsert 1 :: rest), m, rfl, hm, hbegins⟩,
    ⟨_, rest, m', (List.append_assoc _ _ _).symm, hm', hbegins'⟩⟩

/-- The INSERT of the first message gets the row first, whether both are under way or the second
message is sent when the first one has been inserted. -/
theorem seq_lt_iff_precedes_in_order :
    (∃ n row row', run step (start []) (twoMessages ++ .beginInsert 0 :: .beginInsert 1 ::
        (insertion 0 ++ insertion 1)) = some n ∧
      n.Commits 0 row ∧ n.Commits 1 row' ∧ row.seq < row'.seq) ∧
    ∃ n row row', run step (start []) (firstMessage ++ (secondMessage ++ .beginInsert 1 ::
        insertion 1)) = some n ∧
      n.Commits 0 row ∧ n.Commits 1 row' ∧ row.seq < row'.seq := by
  constructor
  · obtain ⟨m, hm, hassigned⟩ : ∃ m, run step (start []) (twoMessages ++
        .beginInsert 0 :: .beginInsert 1 :: [.db (.assignSequence 0)]) = some m ∧
        (m.db.Assigned 0 ∧ ¬ m.db.Assigned 1) :=
      exists_run_of_any (fun m : Node ↦ m.db.Assigned 0 ∧ ¬ m.db.Assigned 1) (by decide)
        fun _ _ h ↦ h
    obtain ⟨n, hn, hrow, hrow'⟩ : ∃ n, run step (start []) (twoMessages ++
        .beginInsert 0 :: .beginInsert 1 :: (insertion 0 ++ insertion 1)) = some n ∧
        (n.Commits 0 ⟨1, 1, .nil, [0x61], [0x61], [0x62], 0⟩ ∧
          n.Commits 1 ⟨2, 2, .nil, [0x61], [0x61], [0x63], 0⟩) :=
      exists_run_of_any (fun n : Node ↦ n.Commits 0 ⟨1, 1, .nil, [0x61], [0x61], [0x62], 0⟩ ∧
        n.Commits 1 ⟨2, 2, .nil, [0x61], [0x61], [0x63], 0⟩) (by decide) fun _ _ h ↦ h
    obtain ⟨hbegins, hbegins'⟩ := begins_twoMessages (insertion 0 ++ insertion 1)
    exact ⟨n, _, _, hn, hrow, hrow', (seq_lt_iff_precedes hn hbegins hbegins' hrow hrow').1.mpr
      ⟨_, [.db (.setUsername 0), .db (.store 0), .db (.commit 0)] ++ insertion 1, m, rfl, hm,
        hassigned⟩⟩
  · obtain ⟨m, hm, hbefore⟩ : ∃ m, run step (start []) firstMessage = some m ∧
        (m.Commits 0 ⟨1, 1, .nil, [0x61], [0x61], [0x62], 0⟩ ∧ m.tasks.length ≤ 1) :=
      exists_run_of_any (fun m : Node ↦ m.Commits 0 ⟨1, 1, .nil, [0x61], [0x61], [0x62], 0⟩ ∧
        m.tasks.length ≤ 1) (by decide) fun _ _ h ↦ h
    obtain ⟨n, hn, hrow, hrow'⟩ : ∃ n, run step (start []) (firstMessage ++
        (secondMessage ++ .beginInsert 1 :: insertion 1)) = some n ∧
        (n.Commits 0 ⟨1, 1, .nil, [0x61], [0x61], [0x62], 0⟩ ∧
          n.Commits 1 ⟨2, 2, .nil, [0x61], [0x61], [0x63], 0⟩) :=
      exists_run_of_any (fun n : Node ↦ n.Commits 0 ⟨1, 1, .nil, [0x61], [0x61], [0x62], 0⟩ ∧
        n.Commits 1 ⟨2, 2, .nil, [0x61], [0x61], [0x63], 0⟩) (by decide) fun _ _ h ↦ h
    obtain ⟨hbegins, hbegins'⟩ := begins_secondMessage (insertion 1)
    exact ⟨n, _, _, hn, hrow, hrow', ((seq_lt_iff_precedes hn hbegins hbegins' hrow hrow').2
      ⟨_, _, m, _, rfl, hm, hbefore⟩).2⟩

/-- The membership checks are answered in order, but the INSERT of the second message gets the row
first: the first message has the higher `seq`. -/
theorem second_message_first :
    ∃ n, run step (start []) (twoMessages ++ .beginInsert 0 :: .beginInsert 1 ::
        (insertion 1 ++ insertion 0)) = some n ∧
      n.isOpen 0 = true ∧ n.db.isMember .nil [0x61] = true ∧
      ¬ SentInOrder [] (twoMessages ++ .beginInsert 0 :: .beginInsert 1 ::
        (insertion 1 ++ insertion 0)) n := by
  refine exists_run_of_any (fun n : Node ↦ n.isOpen 0 = true ∧ n.db.isMember .nil [0x61] = true ∧
    n.Commits 0 ⟨1, 2, .nil, [0x61], [0x61], [0x62], 0⟩ ∧
      n.Commits 1 ⟨2, 1, .nil, [0x61], [0x61], [0x63], 0⟩) (by decide) ?_
  rintro n - ⟨hopen, hmember, hrow, hrow'⟩
  obtain ⟨hbegins, hbegins'⟩ := begins_twoMessages (insertion 1 ++ insertion 0)
  refine ⟨hopen, hmember, fun h ↦ ?_⟩
  exact absurd (h 0 1 0 _ 0 1 _ _ Nat.zero_lt_one hbegins hbegins' hrow hrow') (by decide)

end Node

end PostgresChat
