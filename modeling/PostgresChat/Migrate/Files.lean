import PostgresChat.Js.Text
import Mathlib.Data.List.Sort

/-!
# The migration files

A file of `db/migrations` is read as the list of its SQL statements. What two scripts run at once
can fall out over is what a statement creates: a relation, an index or a trigger of a given name,
with or without `IF NOT EXISTS`. Every other statement of the files goes through whatever has been
applied before, so it is kept as its text alone.

The files are *runnable* when, applied one after another to a database that has the tracking table
only, none of their statements finds in its way what it creates.
-/

namespace PostgresChat
namespace Migrate

/-- A statement of a migration file. -/
inductive Statement
  /-- `CREATE TABLE`, `CREATE INDEX` or `CREATE TRIGGER` of an object that is not dropped first. -/
  | create (object : JsString) (ifNotExists : Bool)
  /-- A statement that nothing is in the way of: `CREATE OR REPLACE FUNCTION`, `DROP TRIGGER IF
  EXISTS` and the `CREATE TRIGGER` behind it, an index without a name, `ALTER TABLE`, `UPDATE`. -/
  | other (text : JsString)
  deriving DecidableEq

/-- A file as the loop sees it: its version and what it holds. -/
structure Migration where
  /-- `path.basename(file, '.sql')`. -/
  version : JsString
  /-- The content of the file. -/
  sql : List Statement
  deriving DecidableEq

/-- `schema_migrations`, the tracking table. -/
def tracking : JsString := JsString.lit "schema_migrations"

/-! ## Reading the directory -/

/-- The order of `sort()`, which compares code units. -/
def codeUnitsLe : JsString → JsString → Bool
  | [], _ => true
  | _ :: _, [] => false
  | a :: as, b :: bs => decide (a.toNat < b.toNat) || a == b && codeUnitsLe as bs

/-- `'.sql'`. -/
def extension : JsString := JsString.lit ".sql"

/-- The `files` of the script, each with its version and content: the entries of the directory that
end in `.sql`, sorted by name. -/
def sqlFiles (dir : List (JsString × List Statement)) : List Migration :=
  ((dir.filter fun entry ↦ extension.isSuffixOf entry.1).insertionSort
    fun a b ↦ codeUnitsLe a.1 b.1 = true).map
    fun entry ↦ ⟨entry.1.take (entry.1.length - extension.length), entry.2⟩

/-! ## The files of the repository -/

open Statement JsString

/-- `001_init.sql`. -/
def init : List Statement :=
  [create (lit "users") true,
   create (lit "sessions") true,
   create (lit "rooms") true,
   create (lit "room_sequences") true,
   create (lit "room_members") true,
   create (lit "messages") false,
   create (lit "messages_room_id_created_at_idx") true,
   other (lit "CREATE UNIQUE INDEX ON messages (room_id, seq)"),
   create (lit "presence") true,
   create (lit "typing") true,
   create (lit "schema_migrations") true,
   other (lit "CREATE OR REPLACE FUNCTION notify_new_message()"),
   other (lit "DROP TRIGGER IF EXISTS on_new_message ON messages"),
   other (lit "CREATE TRIGGER on_new_message AFTER INSERT ON messages"),
   other (lit "CREATE OR REPLACE FUNCTION notify_presence()"),
   other (lit "DROP TRIGGER IF EXISTS on_presence_change ON presence"),
   other (lit "CREATE TRIGGER on_presence_change AFTER INSERT OR UPDATE ON presence"),
   other (lit "CREATE OR REPLACE FUNCTION notify_typing()"),
   other (lit "DROP TRIGGER IF EXISTS on_typing_change ON typing"),
   other (lit "CREATE TRIGGER on_typing_change AFTER INSERT OR UPDATE ON typing"),
   other (lit "CREATE OR REPLACE FUNCTION init_room_sequence()"),
   create (lit "init_room_sequence_trigger") false,
   other (lit "CREATE OR REPLACE FUNCTION assign_room_sequence()"),
   create (lit "set_message_seq") false]

/-- `002_add_message_id_to_notify.sql`. -/
def addMessageIdToNotify : List Statement :=
  [other (lit "CREATE OR REPLACE FUNCTION notify_new_message()")]

/-- `003_add_username_to_messages.sql`. -/
def addUsernameToMessages : List Statement :=
  [other (lit "ALTER TABLE messages ADD COLUMN IF NOT EXISTS username TEXT"),
   other (lit "UPDATE messages m SET username = u.username FROM users u"),
   other (lit "ALTER TABLE messages ALTER COLUMN username SET NOT NULL"),
   other (lit "CREATE OR REPLACE FUNCTION set_message_username()"),
   other (lit "DROP TRIGGER IF EXISTS set_message_username_trigger ON messages"),
   other (lit "CREATE TRIGGER set_message_username_trigger BEFORE INSERT ON messages"),
   other (lit "CREATE OR REPLACE FUNCTION notify_new_message()")]

/-- The directory `db/migrations`. -/
def migrationsDir : List (JsString × List Statement) :=
  [(lit "001_init.sql", init),
   (lit "002_add_message_id_to_notify.sql", addMessageIdToNotify),
   (lit "003_add_username_to_messages.sql", addUsernameToMessages)]

/-- The files of the repository, as the script reads them. -/
def migrationFiles : List Migration := sqlFiles migrationsDir

example : migrationFiles.map Migration.version =
    [lit "001_init", lit "002_add_message_id_to_notify", lit "003_add_username_to_messages"] := by
  decide +kernel

/-! ## Files that can be run -/

/-- The names a list of statements creates. -/
def creates (sql : List Statement) : List JsString :=
  sql.filterMap fun
    | .create object _ => some object
    | .other _ => none

/-- The names that several files create. -/
def createdBy (files : List Migration) : List JsString := files.flatMap fun f ↦ creates f.sql

/-- `sql` goes through where the objects `known` exist. -/
def goesThrough (known : List JsString) : List Statement → Bool
  | [] => true
  | .other _ :: rest => goesThrough known rest
  | .create object ifNotExists :: rest =>
    (ifNotExists || !known.contains object) && goesThrough (object :: known) rest

/-- No two files have the same version, and run in order they all go through. -/
def Runnable (files : List Migration) : Prop :=
  (files.map Migration.version).Nodup ∧
    goesThrough [tracking] (files.flatMap Migration.sql) = true

theorem runnable_migrationFiles : Runnable migrationFiles := by
  constructor <;> decide +kernel

@[simp] theorem creates_nil : creates [] = [] := rfl

@[simp] theorem creates_create (object : JsString) (b : Bool) (rest : List Statement) :
    creates (.create object b :: rest) = object :: creates rest := rfl

@[simp] theorem creates_other (text : JsString) (rest : List Statement) :
    creates (.other text :: rest) = creates rest := rfl

theorem creates_append (xs ys : List Statement) : creates (xs ++ ys) = creates xs ++ creates ys :=
  List.filterMap_append

theorem creates_flatMap (files : List Migration) :
    creates (files.flatMap Migration.sql) = createdBy files := by
  induction files with
  | nil => rfl
  | cons f files ih =>
    rw [List.flatMap_cons, creates_append, ih, createdBy, createdBy, List.flatMap_cons]

/-- A plain `CREATE` in statements that go through makes something new. -/
theorem not_known_of_goesThrough {known : List JsString} {before after : List Statement}
    {object : JsString} (h : goesThrough known (before ++ .create object false :: after) = true) :
    object ∉ known ∧ object ∉ creates before := by
  induction before generalizing known with
  | nil =>
    rw [List.nil_append, goesThrough, Bool.false_or, Bool.and_eq_true, Bool.not_eq_true'] at h
    exact ⟨by simpa using h.1, List.not_mem_nil⟩
  | cons statement before ih =>
    cases statement with
    | other text => exact ih h
    | create name b =>
      rw [List.cons_append, goesThrough, Bool.and_eq_true] at h
      obtain ⟨hknown, hbefore⟩ := ih h.2
      rw [List.mem_cons, not_or] at hknown
      refine ⟨hknown.2, ?_⟩
      rw [creates_create, List.mem_cons, not_or]
      exact ⟨hknown.1, hbefore⟩

end Migrate
end PostgresChat
