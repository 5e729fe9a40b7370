import PostgresChat.Lib.Execution
import PostgresChat.Migrate.Files

/-!
# Runs of the migration script

`N` processes run `scripts/migrate.js` on one database, a statement at a time and in any order. A
run creates the tracking table if there is none, reads the applied versions once and goes through
the files: the statements of a file, the row in `schema_migrations` and the COMMIT are one
transaction, and the first statement of it that fails ends the run with exit code 1.

Of PostgreSQL the model has what a transaction shows to the others. What it creates, and the row it
inserts, exist for nobody else before its COMMIT; a statement that would make the same waits while
the transaction is open, fails once it has been committed, also under `IF NOT EXISTS`, and goes on
when it has been rolled back. A statement that has not waited sees what is committed. The failures
are those that the runs cause each other: of such a statement, or of any other statement in a
transaction that a COMMIT of another run has overtaken (`Event.conflict`).
-/

namespace PostgresChat
namespace Migrate

/-- The loop over the files, at a file that is to be applied. -/
structure Loop where
  /-- The set `applied`. -/
  applied : List JsString
  /-- The file the loop is at. -/
  file : Migration
  /-- The files behind it. -/
  todo : List Migration
  deriving DecidableEq

/-- The transaction of a run. -/
structure Transaction extends Loop where
  /-- How many files had been committed when it began. -/
  seen : ℕ
  /-- The statements of the file that have been executed. -/
  ran : List Statement
  /-- The statements of the file that are still to be executed. -/
  rest : List Statement
  /-- What it has created. -/
  created : List JsString
  deriving DecidableEq

/-- Where a run of the script is. -/
inductive Stage
  /-- Before `CREATE TABLE IF NOT EXISTS schema_migrations`. -/
  | connected
  /-- Before `SELECT version FROM schema_migrations`. -/
  | tracked
  /-- Before the BEGIN for a file. -/
  | ready (l : Loop)
  /-- In the file's transaction, before its next statement or the INSERT; with `waited` that
  statement has been sent and waits for another transaction. -/
  | executing (waited : Bool) (t : Transaction)
  /-- Before the COMMIT. -/
  | inserted (t : Transaction)
  /-- A statement of the transaction has failed: before the ROLLBACK. -/
  | failed
  /-- The process has ended. -/
  | finished (exitCode : ℕ)
  deriving DecidableEq

/-- The database and the runs of the script. -/
structure State (N : ℕ) where
  /-- The relations, indexes and triggers that exist for everyone. -/
  relations : List JsString
  /-- The versions in `schema_migrations`. -/
  rows : List JsString
  /-- The SQL that has been committed, transaction by transaction, with the version of its file. -/
  committed : List Migration
  /-- The runs. -/
  runs : Fin N → Stage

variable {N : ℕ}

/-- What happens next. -/
inductive Event (N : ℕ)
  /-- The run executes its next statement. -/
  | exec (i : Fin N)
  /-- The run's next statement fails over what another run has committed. -/
  | conflict (i : Fin N)

/-- The run that steps. -/
def Event.of : Event N → Fin N
  | .exec i | .conflict i => i

namespace Stage

/-- What an open transaction has created. -/
def created : Stage → List JsString
  | .executing _ t | .inserted t => t.created
  | _ => []

/-- The row an open transaction has inserted. -/
def row : Stage → Option JsString
  | .inserted t => some t.file.version
  | _ => none

end Stage

/-- On with the loop: to the next file that has not been applied, or to the end of the script. -/
def loop (applied : List JsString) : List Migration → Stage
  | [] => .finished 0
  | file :: todo =>
    if applied.contains file.version then loop applied todo else .ready ⟨applied, file, todo⟩

namespace State

/-- The run has got to `stage`. -/
def put (s : State N) (i : Fin N) (stage : Stage) : State N :=
  { s with runs := Function.update s.runs i stage }

/-- Some open transaction has created the object. -/
def creating (s : State N) (object : JsString) : Bool :=
  (List.finRange N).any fun j ↦ (s.runs j).created.contains object

/-- Some open transaction has inserted the row. -/
def inserting (s : State N) (version : JsString) : Bool :=
  (List.finRange N).any fun j ↦ (s.runs j).row == some version

/-- `BEGIN`. -/
def begin (s : State N) (l : Loop) : Transaction :=
  { l with seen := s.committed.length, ran := [], rest := l.file.sql, created := [] }

/-- The next statement of a transaction: one of the file's, or the INSERT behind them. While it
has to go on waiting there is no step. -/
def execute (s : State N) (waited : Bool) (t : Transaction) : Option Stage :=
  match t.rest with
  | .create object ifNotExists :: rest =>
    if s.relations.contains object || t.created.contains object then
      some (if ifNotExists && !waited then
        .executing false { t with ran := t.ran ++ [.create object ifNotExists], rest := rest }
      else .failed)
    else if s.creating object then
      if waited then none else some (.executing true t)
    else
      some (.executing false { t with
        ran := t.ran ++ [.create object ifNotExists]
        rest := rest
        created := t.created ++ [object] })
  | .other text :: rest =>
    some (.executing false { t with ran := t.ran ++ [.other text], rest := rest })
  | [] =>
    if s.rows.contains t.file.version then some .failed
    else if s.inserting t.file.version then
      if waited then none else some (.executing true t)
    else some (.inserted t)

/-- `COMMIT`: what the transaction has made exists for everyone, and the loop goes on. -/
def commit (s : State N) (i : Fin N) (t : Transaction) : State N where
  relations := s.relations ++ t.created
  rows := s.rows ++ [t.file.version]
  committed := s.committed ++ [⟨t.file.version, t.ran⟩]
  runs := Function.update s.runs i (loop t.applied t.todo)

/-- `CREATE TABLE IF NOT EXISTS schema_migrations`. A transaction that creates the table is of a run
that has executed this statement before, so none is in the way. -/
def track (s : State N) : State N :=
  { s with relations :=
      if s.relations.contains tracking then s.relations else s.relations ++ [tracking] }

end State

/-- The next statement of a run of the script over `files`. -/
def step (files : List Migration) (s : State N) : Event N → Option (State N)
  | .exec i =>
    match s.runs i with
    | .connected => some (s.track.put i .tracked)
    | .tracked => some (s.put i (loop s.rows files))
    | .ready l => some (s.put i (.executing false (s.begin l)))
    | .executing waited t => (s.execute waited t).map (s.put i)
    | .inserted t => some (s.commit i t)
    | .failed => some (s.put i (.finished 1))
    | .finished _ => none
  | .conflict i =>
    match s.runs i with
    | .executing _ t =>
      match t.rest with
      | .other _ :: _ => if t.seen < s.committed.length then some (s.put i .failed) else none
      | _ => none
    | _ => none

/-- `N` runs begin where the files `applied` have been applied. -/
def start (N : ℕ) (applied : List Migration) : State N where
  relations := createdBy applied
  rows := applied.map Migration.version
  committed := applied
  runs := fun _ ↦ .connected

/-! ## Inversion -/

section Inversion

variable {files : List Migration} {s s' : State N} {i : Fin N}

@[simp] theorem State.put_self (s : State N) (i : Fin N) (stage : Stage) :
    (s.put i stage).runs i = stage := by
  simp only [State.put, Function.update_self]

theorem State.put_of_ne {j : Fin N} (h : j ≠ i) (stage : Stage) :
    (s.put i stage).runs j = s.runs j := by
  simp only [State.put, Function.update_of_ne h]

@[simp] theorem State.commit_self (s : State N) (i : Fin N) (t : Transaction) :
    (s.commit i t).runs i = loop t.applied t.todo := by
  simp only [State.commit, Function.update_self]

theorem State.commit_of_ne {j : Fin N} (h : j ≠ i) (t : Transaction) :
    (s.commit i t).runs j = s.runs j := by
  simp only [State.commit, Function.update_of_ne h]

@[simp] theorem State.length_commit (s : State N) (i : Fin N) (t : Transaction) :
    (s.commit i t).committed.length = s.committed.length + 1 := List.length_append

theorem creating_eq_true {object : JsString} :
    s.creating object = true ↔ ∃ j, object ∈ (s.runs j).created := by
  rw [State.creating, List.any_eq_true]
  simp only [List.mem_finRange, true_and, List.contains_iff_mem]

theorem inserting_eq_true {version : JsString} :
    s.inserting version = true ↔ ∃ j t, s.runs j = .inserted t ∧ t.file.version = version := by
  rw [State.inserting, List.any_eq_true]
  simp only [List.mem_finRange, true_and, beq_iff_eq]
  refine exists_congr fun j ↦ ?_
  cases s.runs j <;> simp [Stage.row]

/-- What a statement of a transaction can do. -/
inductive Executed (s : State N) (waited : Bool) (t : Transaction) : Stage → Prop
  /-- The statement leaves no object behind. -/
  | passed (statement : Statement) (rest : List Statement) (next : t.rest = statement :: rest)
      (old : ∀ object ∈ creates [statement], object ∈ s.relations ∨ object ∈ t.created) :
    Executed s waited t (.executing false { t with ran := t.ran ++ [statement], rest := rest })
  | made (object : JsString) (ifNotExists : Bool) (rest : List Statement)
      (next : t.rest = .create object ifNotExists :: rest) :
    Executed s waited t (.executing false { t with
      ran := t.ran ++ [.create object ifNotExists]
      rest := rest
      created := t.created ++ [object] })
  | waits (first : waited = false)
      (new : ∀ object b rest, t.rest = .create object b :: rest →
        object ∉ s.relations ∧ object ∉ t.created) : Executed s waited t (.executing true t)
  | clashes (object : JsString) (ifNotExists : Bool) (rest : List Statement)
      (next : t.rest = .create object ifNotExists :: rest)
      (old : object ∈ s.relations ∨ object ∈ t.created)
      (plain : ifNotExists = false ∨ waited = true) : Executed s waited t .failed
  | duplicate (next : t.rest = []) (old : t.file.version ∈ s.rows) : Executed s waited t .failed
  | inserted (next : t.rest = []) (new : t.file.version ∉ s.rows)
      (free : ∀ j t', s.runs j = .inserted t' → t'.file.version ≠ t.file.version) :
    Executed s waited t (.inserted t)

theorem executed_of_execute {waited : Bool} {t : Transaction} {stage : Stage}
    (h : s.execute waited t = some stage) : Executed s waited t stage := by
  rw [State.execute.eq_def] at h
  split at h
  next object ifNotExists rest hrest =>
    split at h
    next hold =>
      rw [Bool.or_eq_true, List.contains_iff_mem, List.contains_iff_mem] at hold
      cases h
      split
      · exact .passed _ rest hrest (by simpa using hold)
      next hplain => exact .clashes object _ rest hrest hold (by grind)
    next hnew =>
      rw [Bool.or_eq_true, List.contains_iff_mem, List.contains_iff_mem, not_or] at hnew
      split at h
      · split at h
        · cases h
        next hwaited =>
          cases h
          refine .waits (Bool.not_eq_true _ ▸ hwaited) fun name b rest' hname ↦ ?_
          rw [hrest] at hname
          cases hname
          exact hnew
      · cases h
        exact .made object ifNotExists rest hrest
  next text rest hrest =>
    cases h
    exact .passed _ rest hrest (by simp)
  next hrest =>
    split at h
    next hold =>
      cases h
      exact .duplicate hrest (List.contains_iff_mem.mp hold)
    next hnew =>
      split at h
      · split at h
        · cases h
        next hwaited =>
          cases h
          refine .waits (Bool.not_eq_true _ ▸ hwaited) fun name b rest' hname ↦ ?_
          rw [hrest] at hname
          cases hname
      next hfree =>
        cases h
        refine .inserted hrest (fun hmem ↦ hnew (List.contains_iff_mem.mpr hmem)) ?_
        exact fun j t' hj hv ↦ hfree (inserting_eq_true.mpr ⟨j, t', hj, hv⟩)

/-- A transaction that has to go on waiting waits for an object or a row of an open one. -/
theorem of_execute_eq_none {waited : Bool} {t : Transaction} (h : s.execute waited t = none) :
    (∃ object b rest, t.rest = .create object b :: rest ∧ object ∉ s.relations ∧
      object ∉ t.created ∧ ∃ j, object ∈ (s.runs j).created) ∨ ∃ j t', s.runs j = .inserted t' := by
  rw [State.execute.eq_def] at h
  split at h
  next object b rest hrest =>
    split at h
    · cases h
    next hnew =>
      rw [Bool.or_eq_true, List.contains_iff_mem, List.contains_iff_mem, not_or] at hnew
      split at h
      next hheld => exact .inl ⟨object, b, rest, hrest, hnew.1, hnew.2, creating_eq_true.mp hheld⟩
      next => cases h
  next => cases h
  next =>
    split at h
    · cases h
    next =>
      split at h
      next hheld =>
        obtain ⟨j, t', hj, -⟩ := inserting_eq_true.mp hheld
        exact .inr ⟨j, t', hj⟩
      next => cases h

/-- What a step has done. -/
inductive Stepped (files : List Migration) (s : State N) : Event N → State N → Prop
  | track (i : Fin N) (stage : s.runs i = .connected) :
    Stepped files s (.exec i) (s.track.put i .tracked)
  | select (i : Fin N) (stage : s.runs i = .tracked) :
    Stepped files s (.exec i) (s.put i (loop s.rows files))
  | begin (i : Fin N) (l : Loop) (stage : s.runs i = .ready l) :
    Stepped files s (.exec i) (s.put i (.executing false (s.begin l)))
  | execute (i : Fin N) (waited : Bool) (t : Transaction) (next : Stage)
      (stage : s.runs i = .executing waited t) (executed : Executed s waited t next) :
    Stepped files s (.exec i) (s.put i next)
  | commit (i : Fin N) (t : Transaction) (stage : s.runs i = .inserted t) :
    Stepped files s (.exec i) (s.commit i t)
  | rollback (i : Fin N) (stage : s.runs i = .failed) :
    Stepped files s (.exec i) (s.put i (.finished 1))
  | conflict (i : Fin N) (waited : Bool) (t : Transaction)
      (stage : s.runs i = .executing waited t) (late : t.seen < s.committed.length) :
    Stepped files s (.conflict i) (s.put i .failed)

theorem stepped_of_step {e : Event N} (h : step files s e = some s') :
    Stepped files s e s' := by
  cases e with
  | exec i =>
    rw [step.eq_def] at h
    dsimp only at h
    split at h
    next hi => exact Option.some.inj h ▸ .track i hi
    next hi => exact Option.some.inj h ▸ .select i hi
    next l hi => exact Option.some.inj h ▸ .begin i l hi
    next waited t hi =>
      obtain ⟨stage, hstage, rfl⟩ := Option.map_eq_some_iff.mp h
      exact .execute i waited t stage hi (executed_of_execute hstage)
    next t hi => exact Option.some.inj h ▸ .commit i t hi
    next hi => exact Option.some.inj h ▸ .rollback i hi
    next => cases h
  | conflict i =>
    rw [step.eq_def] at h
    dsimp only at h
    split at h
    next waited t hi =>
      split at h
      · split at h
        next hlate => exact Option.some.inj h ▸ .conflict i waited t hi hlate
        next => cases h
      · cases h
    next => cases h

/-- Only a COMMIT shows, and a step is of one run. -/
theorem Stepped.commit_or {e : Event N} (h : Stepped files s e s') :
    (∃ i t, e = .exec i ∧ s.runs i = .inserted t ∧ s' = s.commit i t) ∨
    (s'.committed = s.committed ∧ (∀ t, s.runs e.of ≠ .inserted t) ∧
      ∀ j, j ≠ e.of → s'.runs j = s.runs j) := by
  cases h with
  | track i hi => exact .inr ⟨rfl, by simp [Event.of, hi], fun j hj ↦ State.put_of_ne hj _⟩
  | select i hi => exact .inr ⟨rfl, by simp [Event.of, hi], fun j hj ↦ State.put_of_ne hj _⟩
  | begin i l hi => exact .inr ⟨rfl, by simp [Event.of, hi], fun j hj ↦ State.put_of_ne hj _⟩
  | execute i waited t next hi =>
    exact .inr ⟨rfl, by simp [Event.of, hi], fun j hj ↦ State.put_of_ne hj _⟩
  | commit i t hi => exact .inl ⟨i, t, rfl, hi, rfl⟩
  | rollback i hi => exact .inr ⟨rfl, by simp [Event.of, hi], fun j hj ↦ State.put_of_ne hj _⟩
  | conflict i waited t hi =>
    exact .inr ⟨rfl, by simp [Event.of, hi], fun j hj ↦ State.put_of_ne hj _⟩

end Inversion

end Migrate
end PostgresChat
