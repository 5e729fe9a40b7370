import PostgresChat.Rooms.Service
import PostgresChat.Lib.PastTrace

/-!
# Who is a member of a new room

A row of `room_members` is inserted by `joinRoom` and by nothing else: `createRoom` inserts the
room, and the trigger on `rooms` its `room_sequences` row. So of a room that was created in the run
a user is a member exactly when an INSERT of `joinRoom` has run for the two and no DELETE since
(`isMember_iff_since`), and the creator, like anyone, is none when the room has just been created.
-/

namespace PostgresChat

open Execution PastTrace

namespace RoomsSystem

variable {s t : RoomsSystem} {e : RoomsEvent} {es : List RoomsEvent} {u r : Uuid}

/-! ## What a step does -/

/-- What a step does to rooms, members and log. -/
inductive Effect (s t : RoomsSystem) : Prop where
  | quiet (rooms : t.db.rooms = s.db.rooms) (members : ∀ r u, t.db.isMember r u = s.db.isMember r u)
      (log : t.log = s.log)
  | leaveCalled (u r : Uuid) (db : t.db = s.db) (log : t.log = s.log ++ [.leaveCalled u r])
  | created (owner : Uuid) (room : Room) (fresh : ∀ old ∈ s.db.rooms, old.id ≠ room.id)
      (rooms : t.db.rooms = s.db.rooms ++ [room])
      (members : ∀ r u, t.db.isMember r u = s.db.isMember r u)
      (log : t.log = s.log ++ [.created owner room.id])
  | joined (u r : Uuid) (room : r ∈ s.db.rooms.map Room.id) (rooms : t.db.rooms = s.db.rooms)
      (members : ∀ r' u', t.db.isMember r' u' = true ↔
        s.db.isMember r' u' = true ∨ r' = r ∧ u' = u)
      (log : t.log = s.log ++ [.joined u r])
  | left (u r : Uuid) (rooms : t.db.rooms = s.db.rooms)
      (members : ∀ r' u', t.db.isMember r' u' = true ↔
        s.db.isMember r' u' = true ∧ ¬(r' = r ∧ u' = u))
      (log : t.log = s.log ++ [.left u r])

/-- A statement that has run. -/
theorem effect_of_exec {fresh : Uuid} {q : RoomsQuery} {rows : RoomsRows}
    (hexec : s.db.exec fresh q = some (t.db, rows)) (hlog : t.log = s.log ++ q.observed fresh) :
    Effect s t := by
  cases q <;> simp only [RoomsDb.exec, Option.bind_eq_bind, Option.bind_eq_some_iff,
    Option.guard_eq_some', Option.pure_def, Option.some.injEq, Prod.mk.injEq] at hexec
  case insertRoom name description createdBy =>
    obtain ⟨owner, howner, _, -, _, ⟨-, hfresh⟩, hdb, -⟩ := hexec
    rw [RoomsQuery.observed, howner] at hlog
    refine .created owner ⟨fresh, name, description, some owner, s.db.now⟩
      (fun old hold ↦ (hfresh old hold).1) ?_ (fun r u ↦ ?_) hlog
    · rw [← hdb, RoomsDb.rooms_initRoomSequence]
    · rw [← hdb, RoomsDb.isMember, RoomsDb.roomMembers_initRoomSequence, RoomsDb.isMember]
  case selectRooms =>
    obtain ⟨hdb, -⟩ := hexec
    exact .quiet (by rw [hdb]) (fun r u ↦ by rw [hdb]) (hlog.trans (List.append_nil _))
  case selectRoom id =>
    obtain ⟨_, -, hdb, -⟩ := hexec
    exact .quiet (by rw [hdb]) (fun r u ↦ by rw [hdb]) (hlog.trans (List.append_nil _))
  case insertMember roomId userId =>
    obtain ⟨r, hr, u, hu, _, ⟨-, room, hroom, hid⟩, hdb, -⟩ := hexec
    rw [RoomsQuery.observed, hr, hu] at hlog
    refine .joined u r (hid ▸ List.mem_map_of_mem hroom) ?_ (fun r' u' ↦ ?_) hlog
    · rw [← hdb]
      split <;> rfl
    · rw [← hdb]
      split
      case isTrue hold =>
        refine (or_iff_left_of_imp ?_).symm
        rintro ⟨rfl, rfl⟩
        exact hold
      case isFalse =>
        rw [RoomsDb.isMember, List.any_append, Bool.or_eq_true, ← RoomsDb.isMember]
        refine or_congr_right ?_
        simp only [List.any_cons, List.any_nil, Bool.or_false, decide_eq_true_eq]
        exact and_congr eq_comm eq_comm
  case deleteMember roomId userId =>
    obtain ⟨r, hr, u, hu, hdb, -⟩ := hexec
    rw [RoomsQuery.observed, hr, hu] at hlog
    refine .left u r (by rw [← hdb]) (fun r' u' ↦ ?_) hlog
    rw [← hdb, RoomsDb.isMember_iff, RoomsDb.isMember_iff]
    constructor
    · rintro ⟨m, hm, rfl, rfl⟩
      obtain ⟨hm, hne⟩ := List.mem_filter.mp hm
      exact ⟨⟨m, hm, rfl, rfl⟩, of_decide_eq_true hne⟩
    · rintro ⟨⟨m, hm, rfl, rfl⟩, hne⟩
      exact ⟨m, List.mem_filter.mpr ⟨hm, decide_eq_true hne⟩, rfl, rfl⟩
  case selectMember roomId userId =>
    obtain ⟨_, -, _, -, hdb, -⟩ := hexec
    exact .quiet (by rw [hdb]) (fun r u ↦ by rw [hdb]) (hlog.trans (List.append_nil _))

theorem effect_of_step (hstep : s.step e = some t) : Effect s t := by
  cases e with
  | tick ms =>
    cases hstep
    exact .quiet rfl (fun _ _ ↦ rfl) rfl
  | call request =>
    cases hstep
    cases request with
    | leaveRoom userId roomId =>
      cases hu : Uuid.parse userId with
      | none =>
        refine .quiet rfl (fun _ _ ↦ rfl) ?_
        simp only [RoomsRequest.observed, hu, List.append_nil]
      | some u =>
        cases hr : Uuid.parse roomId with
        | none =>
          refine .quiet rfl (fun _ _ ↦ rfl) ?_
          simp only [RoomsRequest.observed, hu, hr, List.append_nil]
        | some r =>
          refine .leaveCalled u r rfl ?_
          simp only [RoomsRequest.observed, hu, hr]
    | createRoom | listRooms | getRoom | joinRoom | isMember =>
      exact .quiet rfl (fun _ _ ↦ rfl) (List.append_nil _)
  | settle c fate fresh =>
    obtain ⟨call, -, hstep⟩ := Option.bind_eq_some_iff.mp hstep
    split at hstep
    case h_2 => cases hstep
    case h_1 stage hstate =>
      rw [Option.pure_def, Option.some.injEq] at hstep
      subst hstep
      unfold settle
      dsimp only
      split
      case h_1 db rows hexec => exact effect_of_exec hexec rfl
      case h_2 db rows hexec => exact effect_of_exec hexec rfl
      case h_3 => exact .quiet rfl (fun _ _ ↦ rfl) rfl
  | resume c =>
    obtain ⟨call, -, hstep⟩ := Option.bind_eq_some_iff.mp hstep
    split at hstep
    case h_2 => cases hstep
    case h_1 =>
      rw [Option.pure_def, Option.some.injEq] at hstep
      subst hstep
      exact .quiet rfl (fun _ _ ↦ rfl) rfl

/-! ## Members of a new room -/

/-- The foreign key `room_members.room_id`. -/
def RefersToRooms (db : RoomsDb) : Prop :=
  ∀ r u, db.isMember r u = true → r ∈ db.rooms.map Room.id

/-- The last of the statements of `joinRoom(u, r)` and `leaveRoom(u, r)` that have run is the
INSERT. -/
def JoinedSince (s : RoomsSystem) (u r : Uuid) : Prop :=
  Since (· = .joined u r) (· = .left u r) s.log

/-- `createRoom` has created `r` for `u`, and `u` has not called `leaveRoom` on it since. -/
def StillCreator (s : RoomsSystem) (u r : Uuid) : Prop :=
  Since (· = .created u r) (· = .leaveCalled u r) s.log

/-- The creator of a room is a member of it, unless they have called `leaveRoom` since. -/
def CreatorsAreMembers (s : RoomsSystem) : Prop :=
  ∀ u r, s.StillCreator u r → s.db.isMember r u = true

/-- The invariant, over the rooms there were at the start. -/
structure Accounted (old : List Uuid) (s : RoomsSystem) : Prop where
  kept : old ⊆ s.db.rooms.map Room.id
  refers : RefersToRooms s.db
  created : ∀ u r, .created u r ∈ s.log → r ∉ old
  members : ∀ u, ∀ r ∉ old, s.db.isMember r u = true ↔ s.JoinedSince u r

theorem joinedSince_concat {o : RoomsObservation} (hlog : t.log = s.log ++ [o]) :
    t.JoinedSince u r ↔ o = .joined u r ∨ s.JoinedSince u r ∧ o ≠ .left u r := by
  rw [JoinedSince, hlog, since_concat, JoinedSince]

theorem accounted_start {db : RoomsDb} (h : RefersToRooms db) :
    Accounted (db.rooms.map Room.id) { db := db } where
  kept := List.Subset.refl _
  refers := h
  created := by rintro _ _ ⟨⟩
  members u r hr := by
    constructor
    · exact fun hmember ↦ absurd (h r u hmember) hr
    · exact fun hsince ↦ absurd hsince not_since_nil

theorem Accounted.step {old : List Uuid} (h : s.Accounted old) (hstep : s.step e = some t) :
    t.Accounted old := by
  cases effect_of_step hstep with
  | quiet rooms members log =>
    refine ⟨rooms ▸ h.kept, fun r u hmember ↦ ?_, log ▸ h.created, fun u r hr ↦ ?_⟩
    · rw [members] at hmember
      exact rooms ▸ h.refers r u hmember
    · rw [members, JoinedSince, log]
      exact h.members u r hr
  | leaveCalled u r db log =>
    refine ⟨db ▸ h.kept, db ▸ h.refers, fun u' r' hmem ↦ ?_, fun u' r' hr ↦ ?_⟩
    · rw [log, List.mem_append, List.mem_singleton] at hmem
      exact h.created u' r' (hmem.resolve_right RoomsObservation.noConfusion)
    · rw [db, joinedSince_concat log, h.members u' r' hr]
      simp only [reduceCtorEq, false_or, ne_eq, not_false_eq_true, and_true]
  | created owner room fresh rooms members log =>
    refine ⟨fun r hr ↦ ?_, fun r u hmember ↦ ?_, fun u r hmem ↦ ?_, fun u r hr ↦ ?_⟩
    · rw [rooms, List.map_append]
      exact List.mem_append_left _ (h.kept hr)
    · rw [members] at hmember
      rw [rooms, List.map_append]
      exact List.mem_append_left _ (h.refers r u hmember)
    · rw [log, List.mem_append, List.mem_singleton] at hmem
      rcases hmem with hmem | heq
      · exact h.created u r hmem
      · cases heq
        intro hold
        obtain ⟨room', hroom', hid⟩ := List.mem_map.mp (h.kept hold)
        exact fresh room' hroom' hid
    · rw [members, joinedSince_concat log, h.members u r hr]
      simp only [reduceCtorEq, false_or, ne_eq, not_false_eq_true, and_true]
  | joined u r room rooms members log =>
    refine ⟨rooms ▸ h.kept, fun r' u' hmember ↦ ?_, fun u' r' hmem ↦ ?_, fun u' r' hr ↦ ?_⟩
    · rw [rooms]
      rcases (members r' u').mp hmember with hold | ⟨rfl, -⟩
      · exact h.refers r' u' hold
      · exact room
    · rw [log, List.mem_append, List.mem_singleton] at hmem
      exact h.created u' r' (hmem.resolve_right RoomsObservation.noConfusion)
    · rw [members, joinedSince_concat log, h.members u' r' hr, RoomsObservation.joined.injEq]
      simp only [reduceCtorEq, ne_eq, not_false_eq_true, and_true]
      rw [or_comm, and_comm, eq_comm, @eq_comm _ r']
  | left u r rooms members log =>
    refine ⟨rooms ▸ h.kept, fun r' u' hmember ↦ ?_, fun u' r' hmem ↦ ?_, fun u' r' hr ↦ ?_⟩
    · rw [rooms]
      exact h.refers r' u' ((members r' u').mp hmember).1
    · rw [log, List.mem_append, List.mem_singleton] at hmem
      exact h.created u' r' (hmem.resolve_right RoomsObservation.noConfusion)
    · rw [members, joinedSince_concat log, h.members u' r' hr, ne_eq, RoomsObservation.left.injEq]
      simp only [reduceCtorEq, false_or]
      rw [and_comm (a := r' = r), eq_comm, @eq_comm _ r']

section Run

variable {db : RoomsDb}

theorem accounted (hrefers : RefersToRooms db) (hrun : run step { db := db } es = some t) :
    t.Accounted (db.rooms.map Room.id) :=
  run_invariant (Accounted _) (fun h hstep ↦ h.step hstep) (accounted_start hrefers) hrun

/-- Of a room that is not one of the old ones, the members are those who have joined. -/
theorem isMember_iff_since (hrefers : RefersToRooms db) (hrun : run step { db := db } es = some t)
    (hr : r ∉ db.rooms.map Room.id) : t.db.isMember r u = true ↔ t.JoinedSince u r :=
  (accounted hrefers hrun).members u r hr

theorem creatorsAreMembers_iff (hrefers : RefersToRooms db)
    (hrun : run step { db := db } es = some t) :
    t.CreatorsAreMembers ↔ ∀ u r, t.StillCreator u r → t.JoinedSince u r := by
  refine forall₃_congr fun u r hcreator ↦ isMember_iff_since hrefers hrun ?_
  obtain ⟨_, hmem, rfl⟩ := hcreator.exists_mem
  exact (accounted hrefers hrun).created u r hmem

/-- The creator is no member in the state that the INSERT leads to. -/
theorem not_creatorsAreMembers_of_created {owner r : Uuid} (hrefers : RefersToRooms s.db)
    (hstep : s.step e = some t) (hlog : t.log = s.log ++ [.created owner r]) :
    ¬ t.CreatorsAreMembers := by
  intro h
  have hmember := h owner r (by rw [StillCreator, hlog, since_concat]; exact Or.inl rfl)
  have hlast : ∀ o, t.log = s.log ++ [o] → o = .created owner r := fun o ho ↦
    List.singleton_inj.mp (List.append_cancel_left (ho.symm.trans hlog))
  cases effect_of_step hstep with
  | quiet rooms members log =>
    rw [log] at hlog
    exact List.cons_ne_nil _ _ (List.self_eq_append_right.mp hlog)
  | leaveCalled _ _ _ log | joined _ _ _ _ _ log | left _ _ _ _ log => cases hlast _ log
  | created owner' room fresh rooms members log =>
    cases hlast _ log
    rw [members] at hmember
    obtain ⟨old, hold, hid⟩ := List.mem_map.mp (hrefers _ _ hmember)
    exact fresh old hold hid

/-- A run that has created a room has been in a state whose creators are not all members. -/
theorem exists_not_creatorsAreMembers (hrefers : RefersToRooms db)
    (hrun : run step { db := db } es = some t) (hcreated : .created u r ∈ t.log) :
    ∃ pre t', pre <+: es ∧ run step { db := db } pre = some t' ∧ ¬ t'.CreatorsAreMembers := by
  induction es using List.reverseRecOn generalizing t with
  | nil =>
    cases hrun
    cases hcreated
  | append_singleton es e ih =>
    obtain ⟨s, hs, hstep⟩ := run_concat_eq_some.mp hrun
    by_cases hbefore : .created u r ∈ s.log
    · obtain ⟨pre, t', hpre, ht'⟩ := ih hs hbefore
      exact ⟨pre, t', hpre.trans (List.prefix_append _ _), ht'⟩
    · refine ⟨es ++ [e], t, List.prefix_rfl, hrun, ?_⟩
      have hrefers' := (accounted hrefers hs).refers
      have hnew : ∀ o, t.log = s.log ++ [o] → o = .created u r := by
        intro o ho
        rw [ho, List.mem_append, List.mem_singleton] at hcreated
        exact (hcreated.resolve_left hbefore).symm
      have hlog : t.log = s.log ++ [.created u r] := by
        cases effect_of_step hstep with
        | quiet _ _ log => exact absurd (log ▸ hcreated) hbefore
        | leaveCalled _ _ _ log | created _ _ _ _ _ log | joined _ _ _ _ _ log | left _ _ _ _ log =>
          exact hnew _ log ▸ log
      exact not_creatorsAreMembers_of_created hrefers' hstep hlog

/-- The log only grows. -/
theorem log_grows (hrun : run step s es = some t) : s.log <+: t.log := by
  refine run_invariant (fun t ↦ s.log <+: t.log) (fun h hstep ↦ h.trans ?_) List.prefix_rfl hrun
  cases effect_of_step hstep with
  | quiet _ _ log => exact log ▸ List.prefix_rfl
  | leaveCalled _ _ _ log | created _ _ _ _ _ log | joined _ _ _ _ _ log | left _ _ _ _ log =>
    exact log ▸ List.prefix_append _ _

/-- The creators of rooms are members in all states of a run exactly when no room is created in it;
and in a state exactly when each of them, unless they have called `leaveRoom` since, has joined. -/
theorem creators_are_members_iff (hrefers : RefersToRooms db)
    (hrun : run step { db := db } es = some t) :
    ((∀ pre t', pre <+: es → run step { db := db } pre = some t' → t'.CreatorsAreMembers) ↔
      ∀ u r, .created u r ∉ t.log) ∧
    (t.CreatorsAreMembers ↔ ∀ u r, t.StillCreator u r → t.JoinedSince u r) := by
  refine ⟨⟨fun h u r hcreated ↦ ?_, ?_⟩, creatorsAreMembers_iff hrefers hrun⟩
  · obtain ⟨pre, t', hpre, hrun', hnot⟩ := exists_not_creatorsAreMembers hrefers hrun hcreated
    exact hnot (h pre t' hpre hrun')
  · rintro h pre t' ⟨post, rfl⟩ hrun' u r hcreator
    obtain ⟨_, hmem, rfl⟩ := hcreator.exists_mem
    obtain ⟨t'', ht'', hrest⟩ := run_append_eq_some.mp hrun
    cases ht''.symm.trans hrun'
    exact absurd ((log_grows hrest).subset hmem) (h u r)

end Run

/-! ## Examples -/

/-- A user creates a room. -/
def creates : List RoomsEvent :=
  [.call (.createRoom Uuid.nil.text (.lit "general") none), .settle 0 .answered (.ofDigit 1),
    .resume 0]

/-- The user then joins the room. -/
def createsAndJoins : List RoomsEvent :=
  creates ++ [.call (.joinRoom Uuid.nil.text (Uuid.ofDigit 1).text), .settle 1 .answered .nil,
    .resume 1, .settle 1 .answered .nil, .resume 1]

/-- The creator is a member after joining. -/
theorem creators_are_members_iff_createsAndJoins :
    ∃ t, run step { db := { users := [.nil] } } createsAndJoins = some t ∧
      t.db.isMember (.ofDigit 1) .nil = true ∧
      ((∀ pre t', pre <+: createsAndJoins →
          run step { db := { users := [.nil] } } pre = some t' → t'.CreatorsAreMembers) ↔
        ∀ u r, .created u r ∉ t.log) ∧
      (t.CreatorsAreMembers ↔ ∀ u r, t.StillCreator u r → t.JoinedSince u r) := by
  refine exists_run_of_any (fun t : RoomsSystem ↦ t.db.isMember (.ofDigit 1) .nil = true)
    (by decide +kernel) fun t hrun hmember ↦ ⟨hmember, ?_⟩
  exact creators_are_members_iff (by rintro _ _ ⟨⟩) hrun

/-- A room has been created, and the creator is not a member. -/
theorem creator_not_member :
    ∃ t, run step { db := { users := [.nil] } } creates = some t ∧
      t.calls.map RoomsCall.state = [.ended (.returned (.room (some
        ⟨.ofDigit 1, .lit "general", none, some .nil, 0⟩)))] ∧
      t.StillCreator .nil (.ofDigit 1) ∧ t.db.isMember (.ofDigit 1) .nil = false ∧
      ¬ t.CreatorsAreMembers := by
  refine exists_run_of_any (fun t : RoomsSystem ↦ t.calls.map RoomsCall.state =
      [.ended (.returned (.room (some ⟨.ofDigit 1, .lit "general", none, some .nil, 0⟩)))] ∧
      t.log = [.created .nil (.ofDigit 1)] ∧ t.db.isMember (.ofDigit 1) .nil = false)
    (by decide +kernel) ?_
  rintro t - ⟨hcalls, hlog, hmember⟩
  have hcreator : t.StillCreator .nil (.ofDigit 1) := by
    rw [StillCreator, hlog]
    exact since_cons.mpr (Or.inl ⟨rfl, by rintro _ ⟨⟩⟩)
  refine ⟨hcalls, hcreator, hmember, fun h ↦ ?_⟩
  rw [h .nil (.ofDigit 1) hcreator] at hmember
  cases hmember

end RoomsSystem

end PostgresChat
