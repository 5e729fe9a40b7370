import PostgresChat.Lib.Execution
import PostgresChat.Migrate.Files

/-!
# One run after another

`scripts/migrate.js` run any number of times, one run after another, where any statement of a run
may fail. Here a script is any list of statements, and a statement anything that it may do to the
database, `schema_migrations` included; what it does may depend on more than the tables (the clock,
a setting of the session), which is passed to it as an environment.

A run begins with a connection. A statement that fails in the transaction of a file is followed by
the ROLLBACK, after which nothing of the transaction is left; one that fails before ends the run at
once. The answer to a COMMIT may be lost as well (`Event.lose`): the file is then committed, and the
run ends as if it had failed.

The rows of `schema_migrations` are the versions of what has been committed as long as the scripts
leave them alone (`LeavesVersions`), which nothing in the code checks.
-/

namespace PostgresChat
namespace Migrate
namespace Sequential

open Execution

/-! ## The database and the scripts -/

/-- The database: the tables, and the rows of `schema_migrations` when there is that table. -/
structure Database (σ : Type) where
  data : σ
  versions : Option (List JsString)
  deriving DecidableEq

/-- A statement in an environment; `none` when it fails. -/
abbrev Sql (ρ σ : Type) := ρ → Database σ → Option (Database σ)

/-- A file as the loop sees it. -/
structure Script (ρ σ : Type) where
  version : JsString
  sql : List (Sql ρ σ)

variable {ρ σ : Type}

/-- `CREATE TABLE IF NOT EXISTS schema_migrations`. -/
def Database.track (db : Database σ) : Database σ :=
  { db with versions := some (db.versions.getD []) }

/-- `INSERT INTO schema_migrations(version) VALUES($1)`. -/
def Database.insertVersion (db : Database σ) (version : JsString) : Option (Database σ) :=
  db.versions.bind fun versions ↦
    if versions.contains version then none
    else some { db with versions := some (versions ++ [version]) }

/-! ## A run -/

/-- The loop over the files, at a file that is to be applied. -/
structure Loop (ρ σ : Type) where
  /-- The set `applied`. -/
  applied : List JsString
  file : Script ρ σ
  /-- The files behind it. -/
  todo : List (Script ρ σ)

/-- The transaction of a file. -/
structure Transaction (ρ σ : Type) extends Loop ρ σ where
  /-- The database as the transaction sees it. -/
  work : Database σ
  /-- The statements that have been executed. -/
  ran : List (Sql ρ σ)
  /-- The statements that are still to be executed. -/
  rest : List (Sql ρ σ)

/-- Where a run is. -/
inductive Stage (ρ σ : Type)
  /-- Before `CREATE TABLE IF NOT EXISTS schema_migrations`. -/
  | connected
  /-- Before `SELECT version FROM schema_migrations`. -/
  | tracked
  /-- Before the BEGIN for a file. -/
  | ready (l : Loop ρ σ)
  /-- Before the next statement of the file, or the INSERT. -/
  | executing (t : Transaction ρ σ)
  /-- Before the COMMIT. -/
  | inserted (t : Transaction ρ σ)
  /-- Before the ROLLBACK. `failure` is the file whose statement has failed. -/
  | failed (failure : Option (Script ρ σ))
  /-- The process has ended. -/
  | finished (exitCode : ℕ) (failure : Option (Script ρ σ))

/-- The committed database, and where the current run is. -/
structure State (ρ σ : Type) where
  db : Database σ
  /-- The SQL that has been committed over all runs, with the version of its file. -/
  committed : List (Script ρ σ)
  stage : Stage ρ σ

/-- What happens next. -/
inductive Event (ρ : Type)
  /-- The script is started again. -/
  | start
  /-- The next statement is executed. -/
  | exec (env : ρ)
  /-- The next statement fails. -/
  | fail
  /-- The COMMIT is executed, and its answer lost. -/
  | lose
  deriving DecidableEq

/-- On with the loop: to the next file that has not been applied, or to the end of the script. -/
def loop (applied : List JsString) : List (Script ρ σ) → Stage ρ σ
  | [] => .finished 0 none
  | file :: todo =>
    if applied.contains file.version then loop applied todo else .ready ⟨applied, file, todo⟩

/-- The next statement of a transaction: one of the file's, or the INSERT behind them. -/
def Transaction.execute (t : Transaction ρ σ) (env : ρ) : Stage ρ σ :=
  match t.rest with
  | statement :: rest =>
    match statement env t.work with
    | some work => .executing { t with work := work, ran := t.ran ++ [statement], rest := rest }
    | none => .failed (some t.file)
  | [] =>
    match t.work.insertVersion t.file.version with
    | some work => .inserted { t with work := work }
    | none => .failed (some t.file)

/-- `COMMIT`. -/
def State.commit (s : State ρ σ) (t : Transaction ρ σ) (stage : Stage ρ σ) : State ρ σ where
  db := t.work
  committed := s.committed ++ [⟨t.file.version, t.ran⟩]
  stage := stage

/-- The step of an event over `files`, `none` when it cannot happen. -/
def step (files : List (Script ρ σ)) (s : State ρ σ) : Event ρ → Option (State ρ σ)
  | .start =>
    match s.stage with
    | .finished .. => some { s with stage := .connected }
    | _ => none
  | .exec env =>
    match s.stage with
    | .connected => some { s with db := s.db.track, stage := .tracked }
    | .tracked => some { s with stage := loop (s.db.versions.getD []) files }
    | .ready l => some { s with stage := .executing { l with
        work := s.db, ran := [], rest := l.file.sql } }
    | .executing t => some { s with stage := t.execute env }
    | .inserted t => some (s.commit t (loop t.applied t.todo))
    | .failed failure => some { s with stage := .finished 1 failure }
    | .finished .. => none
  | .fail =>
    match s.stage with
    | .connected | .tracked => some { s with stage := .finished 1 none }
    | .ready l => some { s with stage := .finished 1 (some l.file) }
    | .executing t | .inserted t => some { s with stage := .failed (some t.file) }
    | .failed failure => some { s with stage := .finished 1 failure }
    | .finished .. => none
  | .lose =>
    match s.stage with
    | .inserted t => some (s.commit t (.failed none))
    | _ => none

/-- No run has been made, and the database is empty. -/
def start (empty : σ) : State ρ σ where
  db := ⟨empty, none⟩
  committed := []
  stage := .finished 0 none

/-! ## What the scripts make of the database -/

/-- Statements that lead from one database to another, in some environments. -/
inductive Makes : Database σ → List (Sql ρ σ) → Database σ → Prop
  | nil (db : Database σ) : Makes db [] db
  | concat {db db' db'' : Database σ} {ran : List (Sql ρ σ)} {statement : Sql ρ σ} (env : ρ)
      (makes : Makes db ran db') (executes : statement env db' = some db'') :
      Makes db (ran ++ [statement]) db''

/-- Scripts applied one after another, each with its row. -/
inductive Applied : Database σ → List (Script ρ σ) → Database σ → Prop
  | nil (db : Database σ) : Applied db [] db
  | concat {db db' work db'' : Database σ} {files : List (Script ρ σ)} {file : Script ρ σ}
      (before : Applied db files db') (makes : Makes db' file.sql work)
      (records : work.insertVersion file.version = some db'') :
      Applied db (files ++ [file]) db''

/-- A statement leaves the rows of `schema_migrations` as they are. -/
def Sql.LeavesVersions (statement : Sql ρ σ) : Prop :=
  ∀ env db db' versions, statement env db = some db' → db.versions = some versions →
    db'.versions = some versions

/-- The scripts leave the rows of `schema_migrations` as they are. -/
def LeavesVersions (files : List (Script ρ σ)) : Prop :=
  ∀ file ∈ files, ∀ statement ∈ file.sql, Sql.LeavesVersions statement

section

variable {files : List (Script ρ σ)} {s s' : State ρ σ} {e : Event ρ} {empty : σ}

/-! ### The names of the files -/

/-- The loop is at the first file that has not been committed. -/
structure Loop.At (files committed : List (Script ρ σ)) (db : Database σ) (l : Loop ρ σ) :
    Prop where
  files : files = committed ++ l.file :: l.todo
  applied : l.applied ⊆ committed.map Script.version
  versions : db.versions = some (committed.map Script.version)

/-- What holds of where a run is, with what it has found committed. -/
def Stage.Kept (files committed : List (Script ρ σ)) (db : Database σ) : Stage ρ σ → Prop
  | .connected => True
  | .tracked => db.versions = some (committed.map Script.version)
  | .ready l => l.At files committed db
  | .executing t => t.At files committed db ∧ Makes db t.ran t.work ∧ t.ran ++ t.rest = t.file.sql
  | .inserted t => t.At files committed db ∧ t.ran = t.file.sql ∧
    ∃ work, Makes db t.file.sql work ∧ work.insertVersion t.file.version = some t.work
  | .failed failure | .finished _ failure =>
    ∀ file ∈ failure, ∃ behind, files = committed ++ file :: behind

/-- The invariant. -/
structure Kept (files : List (Script ρ σ)) (empty : σ) (s : State ρ σ) : Prop where
  recorded : s.db.versions.getD [] = s.committed.map Script.version
  inOrder : s.committed <+: files
  effect : Applied ⟨empty, some []⟩ s.committed s.db ∨ s.committed = [] ∧ s.db = ⟨empty, none⟩
  stage : s.stage.Kept files s.committed s.db

/-- Files that have been applied are passed over. -/
theorem loop_append {applied : List JsString} {done : List (Script ρ σ)}
    (hdone : ∀ file ∈ done, file.version ∈ applied) (todo : List (Script ρ σ)) :
    loop applied (done ++ todo) = loop applied todo := by
  induction done with
  | nil => rfl
  | cons file done ih =>
    rw [List.cons_append, loop, if_pos (List.contains_iff_mem.mpr (hdone file List.mem_cons_self)),
      ih fun other hother ↦ hdone other (List.mem_cons_of_mem _ hother)]

/-- Behind the files that have been committed the loop stops at the next one. -/
theorem loop_kept (hfiles : (files.map Script.version).Nodup) {committed todo : List (Script ρ σ)}
    (heq : files = committed ++ todo) {applied : List JsString}
    (happlied : applied ⊆ committed.map Script.version) {db : Database σ}
    (hversions : db.versions = some (committed.map Script.version)) :
    (loop applied todo).Kept files committed db := by
  cases todo with
  | nil => rintro _ ⟨⟩
  | cons file todo =>
    have hnew : file.version ∉ applied := by
      intro hmem
      rw [heq, List.map_append, List.map_cons, List.nodup_append] at hfiles
      exact hfiles.2.2 _ (happlied hmem) _ List.mem_cons_self rfl
    rw [loop, if_neg fun h ↦ hnew (List.contains_iff_mem.mp h)]
    exact ⟨heq, happlied, hversions⟩

/-- Statements that leave the rows alone do so one after another. -/
theorem Makes.versions_eq {db db' : Database σ} {ran : List (Sql ρ σ)} (h : Makes db ran db')
    (hleaves : ∀ statement ∈ ran, Sql.LeavesVersions statement) {versions : List JsString}
    (hversions : db.versions = some versions) : db'.versions = some versions := by
  induction h with
  | nil => exact hversions
  | concat env _ executes ih =>
    refine hleaves _ (List.mem_append_right _ (List.mem_singleton_self _)) env _ _ _ executes ?_
    exact ih fun statement hmem ↦ hleaves statement (List.mem_append_left _ hmem)

theorem insertVersion_eq_some {db db' : Database σ} {version : JsString}
    (h : db.insertVersion version = some db') :
    ∃ versions, db.versions = some versions ∧ version ∉ versions ∧
      db' = { db with versions := some (versions ++ [version]) } := by
  obtain ⟨versions, hversions, h⟩ := Option.bind_eq_some_iff.mp h
  rw [Option.ite_none_left_eq_some, Option.some.injEq] at h
  exact ⟨versions, hversions, fun hmem ↦ h.1 (List.contains_iff_mem.mpr hmem), h.2.symm⟩

/-- The row that a COMMIT leaves behind is that of its file. -/
theorem versions_commit (hleaves : LeavesVersions files) {committed : List (Script ρ σ)}
    {db : Database σ} {t : Transaction ρ σ} (h : (Stage.inserted t).Kept files committed db) :
    t.work.versions = some ((committed ++ [t.file]).map Script.version) := by
  obtain ⟨hat, -, work, hmakes, hinsert⟩ := h
  have hmem : t.file ∈ files := by
    rw [hat.files]
    exact List.mem_append_right _ List.mem_cons_self
  obtain ⟨versions, hversions, -, hwork⟩ := insertVersion_eq_some hinsert
  cases (hmakes.versions_eq (hleaves t.file hmem) hat.versions).symm.trans hversions
  rw [hwork, List.map_append]
  rfl

/-- A COMMIT. -/
theorem Kept.commit (hleaves : LeavesVersions files) (h : Kept files empty s)
    {t : Transaction ρ σ} (hstage : s.stage = .inserted t) {stage : Stage ρ σ}
    (hnext : stage.Kept files (s.committed ++ [t.file]) t.work) :
    Kept files empty (s.commit t stage) := by
  have hkept : (Stage.inserted t).Kept files s.committed s.db := hstage ▸ h.stage
  have hversions := versions_commit hleaves hkept
  obtain ⟨hat, hran, work, hmakes, hinsert⟩ := hkept
  have hfile : (⟨t.file.version, t.ran⟩ : Script ρ σ) = t.file := by rw [hran]
  rw [State.commit, hfile]
  constructor
  · rw [hversions, Option.getD_some]
  · exact ⟨t.todo, by rw [List.append_assoc]; exact hat.files.symm⟩
  · rcases h.effect with happlied | ⟨-, hempty⟩
    · exact Or.inl (.concat happlied hmakes hinsert)
    · have hnone := hat.versions
      rw [hempty] at hnone
      cases hnone
  · exact hnext

/-- Where the table is there at first, it is there afterwards. -/
theorem Applied.track_eq {db db' : Database σ} {applied : List (Script ρ σ)}
    (h : Applied db applied db') (hdb : db.versions ≠ none) : db'.track = db' := by
  have hsome : ∃ versions, db'.versions = some versions := by
    cases h with
    | nil => exact Option.ne_none_iff_exists'.mp hdb
    | concat before makes records =>
      obtain ⟨versions, -, -, rfl⟩ := insertVersion_eq_some records
      exact ⟨_, rfl⟩
  obtain ⟨versions, hversions⟩ := hsome
  rw [Database.track, hversions, Option.getD_some, ← hversions]

theorem Kept.track (h : Kept files empty s) :
    Kept files empty { s with db := s.db.track, stage := .tracked } := by
  refine ⟨h.recorded, h.inOrder, Or.inl ?_, congrArg some h.recorded⟩
  rcases h.effect with happlied | ⟨hnone, hempty⟩
  · rwa [happlied.track_eq (Option.some_ne_none _)]
  · rw [hnone, hempty]
    exact .nil _

/-- The next statement of a transaction. -/
theorem kept_execute {committed : List (Script ρ σ)} {db : Database σ} {t : Transaction ρ σ}
    (h : (Stage.executing t).Kept files committed db) (env : ρ) :
    (t.execute env).Kept files committed db := by
  obtain ⟨hat, hmakes, hsql⟩ := h
  have hfailed : (Stage.failed (some t.file)).Kept files committed db := by
    rintro _ ⟨⟩
    exact ⟨t.todo, hat.files⟩
  rw [Transaction.execute]
  split
  case h_1 statement rest hrest =>
    split
    case h_1 work hwork =>
      refine ⟨hat, hmakes.concat env hwork, ?_⟩
      rw [← hsql, hrest, List.append_assoc]
      rfl
    case h_2 => exact hfailed
  case h_2 hrest =>
    rw [hrest, List.append_nil] at hsql
    split
    case h_1 work hwork => exact ⟨hat, hsql, t.work, hsql ▸ hmakes, hwork⟩
    case h_2 => exact hfailed

theorem Kept.step (hfiles : (files.map Script.version).Nodup) (hleaves : LeavesVersions files)
    (h : Kept files empty s) (hstep : step files s e = some s') : Kept files empty s' := by
  -- Only the COMMIT and the creation of the table touch the database.
  have hquiet : ∀ stage : Stage ρ σ, stage.Kept files s.committed s.db →
      Kept files empty { s with stage := stage } :=
    fun stage hstage ↦ ⟨h.recorded, h.inOrder, h.effect, hstage⟩
  have hfailed : ∀ l : Loop ρ σ, l.At files s.committed s.db →
      ∀ file ∈ some l.file, ∃ behind, files = s.committed ++ file :: behind := by
    rintro l hat _ ⟨⟩
    exact ⟨l.todo, hat.files⟩
  have hkept := h.stage
  rw [Sequential.step.eq_def] at hstep
  cases hs : s.stage with
  | connected =>
    cases e <;> simp only [hs, Option.some.injEq, reduceCtorEq] at hstep <;> subst hstep
    case exec env => exact h.track
    case fail => exact hquiet _ (by rintro _ ⟨⟩)
  | tracked =>
    rw [hs] at hkept
    have hversions : s.db.versions = some (s.committed.map Script.version) := hkept
    cases e <;> simp only [hs, Option.some.injEq, reduceCtorEq] at hstep <;> subst hstep
    case exec env =>
      obtain ⟨todo, htodo⟩ := h.inOrder
      refine hquiet _ ?_
      have hrows : ∀ file ∈ s.committed, file.version ∈ s.db.versions.getD [] := by
        intro file hfile
        rw [h.recorded]
        exact List.mem_map_of_mem hfile
      rw [← htodo, loop_append hrows, htodo]
      exact loop_kept hfiles htodo.symm (h.recorded ▸ List.Subset.refl _) hversions
    case fail => exact hquiet _ (by rintro _ ⟨⟩)
  | ready l =>
    rw [hs] at hkept
    cases e <;> simp only [hs, Option.some.injEq, reduceCtorEq] at hstep <;> subst hstep
    case exec env => exact hquiet _ ⟨hkept, .nil _, rfl⟩
    case fail => exact hquiet _ (hfailed l hkept)
  | executing t =>
    rw [hs] at hkept
    cases e <;> simp only [hs, Option.some.injEq, reduceCtorEq] at hstep <;> subst hstep
    case exec env => exact hquiet _ (kept_execute hkept env)
    case fail => exact hquiet _ (hfailed t.toLoop hkept.1)
  | inserted t =>
    rw [hs] at hkept
    have hat : t.At files s.committed s.db := hkept.1
    have hbehind : files = (s.committed ++ [t.file]) ++ t.todo := by
      rw [List.append_assoc]
      exact hat.files
    cases e <;> simp only [hs, Option.some.injEq, reduceCtorEq] at hstep <;> subst hstep
    case exec env =>
      refine h.commit hleaves hs (loop_kept hfiles hbehind ?_ (versions_commit hleaves hkept))
      rw [List.map_append]
      exact List.Subset.trans hat.applied (List.subset_append_left _ _)
    case fail => exact hquiet _ (hfailed t.toLoop hat)
    case lose => exact h.commit hleaves hs (by rintro _ ⟨⟩)
  | failed failure =>
    rw [hs] at hkept
    cases e <;> simp only [hs, Option.some.injEq, reduceCtorEq] at hstep <;> subst hstep
    case exec env => exact hquiet _ hkept
    case fail => exact hquiet _ hkept
  | finished exitCode failure =>
    cases e <;> simp only [hs, Option.some.injEq, reduceCtorEq] at hstep
    case start =>
      subst hstep
      exact hquiet _ trivial

theorem kept_start : Kept files empty (start empty) where
  recorded := rfl
  inOrder := List.nil_prefix
  effect := Or.inr ⟨rfl, rfl⟩
  stage := by rintro _ ⟨⟩

end

/-! ## The files of the repository -/

/-- A run in which `n` statements are executed. -/
def executes (n : ℕ) : List (Event Unit) := .start :: List.replicate n (.exec ())

end Sequential
end Migrate
end PostgresChat
