import Mathlib.Data.List.Nodup
import PostgresChat.Lib.Execution
import PostgresChat.Lib.Lists

/-!
# Transactions on the pool

`transaction(fn)` checks a client out, sends `BEGIN`, lets `fn` send its statements, and sends
`COMMIT`, or `ROLLBACK` when anything was thrown. What PostgreSQL does with a COMMIT depends on what
came before: after a statement that failed it is a ROLLBACK, and it is answered without an error. So
a call can be fulfilled and have committed nothing, namely when `fn` has swallowed the rejection of
a statement; and one can be rejected and have committed all, when the connection is lost between the
COMMIT and its answer.

The wrapper of `pool.connect` sends `SET statement_timeout` on a client before it hands it over.
When the SET fails `pool.connect()` rejects, before the `try` of `transaction` is entered, and
nobody releases the client.

The statements are of any type; `fn` sends none that ends the transaction or sets a savepoint, and
none after it has settled. Of PostgreSQL the model has in what state the transaction of a session is
and what is committed, of pg that the commands of a client settle one after another and that all of
them are rejected when the connection is lost, and of pg-pool that a client is held by one caller at
a time and that a broken one is not handed out again.

`committed_calls_iff` says which calls have been committed, and `ended_of_responses` that all of
them end and release their clients, but for those whose SET has failed.
-/

namespace PostgresChat

open Execution

/-! ## Sessions and calls -/

/-- The transaction of a session. -/
inductive SessionTransaction (α : Type) where
  | none
  /-- `BEGIN`, and what has been executed since. -/
  | active (done : List α)
  /-- A statement has failed; all others do so until the end of the transaction. -/
  | aborted
  deriving DecidableEq

/-- A client of the pool and its session. -/
structure TransactionClient (α : Type) where
  held : Bool := true
  broken : Bool := false
  transaction : SessionTransaction α := .none
  deriving DecidableEq

/-- The `await` that a call is at, with its client. -/
inductive TransactionStage where
  | connecting
  /-- `pool.connect()`, with the SET of its wrapper under way. -/
  | setting (i : ℕ)
  | beginning (i : ℕ)
  /-- `await fn(client)`. -/
  | running (i : ℕ)
  | committing (i : ℕ)
  | rollingBack (i : ℕ)
  | fulfilled
  | rejected
  /-- Rejected because the SET has failed on the client. -/
  | setFailed (i : ℕ)
  deriving DecidableEq

/-- The client that has been checked out and not been released. After a failed SET nobody has it. -/
def TransactionStage.client? : TransactionStage → Option ℕ
  | .setting i | .beginning i | .running i | .committing i | .rollingBack i | .setFailed i => some i
  | .connecting | .fulfilled | .rejected => none

/-- The promise of the call has settled. -/
def TransactionStage.settled : TransactionStage → Bool
  | .fulfilled | .rejected | .setFailed _ => true
  | .connecting | .setting _ | .beginning _ | .running _ | .committing _ | .rollingBack _ => false

/-- A call of `transaction`, known by its position in `Transactions.calls`. The last three fields
are a log that no step reads. -/
structure TransactionCall (α : Type) where
  stage : TransactionStage := .connecting
  /-- What `fn` has sent and the server has not come to. -/
  queue : List α := []
  /-- What `fn` has sent. -/
  issued : List α := []
  /-- A statement of `fn` has been rejected. -/
  failed : Bool := false
  /-- The connection was lost between the COMMIT and its answer. -/
  lost : Bool := false
  deriving DecidableEq

/-- What happens to a call that has a client. -/
inductive TransactionAction (α : Type) where
  /-- `fn` sends a statement, whether or not it has awaited the one before. -/
  | issue (a : α)
  | returns
  | throws
  /-- The next command of the client settles. -/
  | settle (ok : Bool)
  /-- The connection is lost, after the COMMIT has been executed if `executed` and it is next. -/
  | breaks (executed : Bool)
  deriving DecidableEq

namespace TransactionCall

variable {α : Type}

/-- The next statement of the queue settles. -/
def settleStatement (call : TransactionCall α) (cl : TransactionClient α) (a : α) (rest : List α)
    (ok : Bool) : TransactionCall α × TransactionClient α × Option (List α) :=
  let rejected := { call with queue := rest, failed := true }
  if cl.broken then (rejected, cl, none)
  else
    match cl.transaction with
    | .active done =>
      if ok then
        ({ call with queue := rest }, { cl with transaction := .active (done ++ [a]) }, none)
      else (rejected, { cl with transaction := .aborted }, none)
    | .aborted => (rejected, cl, none)
    -- Outside a transaction a statement is one of its own.
    | .none => if ok then ({ call with queue := rest }, cl, some [a]) else (rejected, cl, none)

/-- The SET, `BEGIN`, `COMMIT` or `ROLLBACK` settles; the last two release the client when they end
the call. PostgreSQL carries out a ROLLBACK whatever the state of the transaction. -/
def settleControl (call : TransactionCall α) (cl : TransactionClient α) (ok : Bool) :
    Option (TransactionCall α × TransactionClient α × Option (List α)) :=
  match call.stage with
  | .setting i =>
    if ok && !cl.broken then some ({ call with stage := .beginning i }, cl, none)
    else some ({ call with stage := .setFailed i }, cl, none)
  | .beginning i =>
    if ok && !cl.broken then
      some ({ call with stage := .running i }, { cl with transaction := .active [] }, none)
    else some ({ call with stage := .rollingBack i }, cl, none)
  | .committing i =>
    let released := { cl with transaction := .none, held := false }
    if ok && !cl.broken then
      match cl.transaction with
      | .active done => some ({ call with stage := .fulfilled }, released, some done)
      | .aborted | .none => some ({ call with stage := .fulfilled }, released, none)
    else some ({ call with stage := .rollingBack i }, { cl with transaction := .none }, none)
  | .rollingBack _ =>
    if ok || cl.broken then
      some ({ call with stage := .rejected }, { cl with transaction := .none, held := false }, none)
    else none
  | .connecting | .running _ | .fulfilled | .rejected | .setFailed _ => none

/-- The connection is lost, and the server ends the session. -/
def breakClient (call : TransactionCall α) (cl : TransactionClient α) (executed : Bool) :
    TransactionCall α × TransactionClient α × Option (List α) :=
  let gone := { cl with transaction := .none, broken := true }
  match call.stage, call.queue, cl.transaction with
  | .committing _, [], .active done =>
    if executed then ({ call with lost := true }, gone, some done) else (call, gone, none)
  | _, _, _ => (call, gone, none)

/-- What becomes of a call and its client, and what is committed. -/
def act (call : TransactionCall α) (cl : TransactionClient α) :
    TransactionAction α → Option (TransactionCall α × TransactionClient α × Option (List α))
  | .issue a =>
    match call.stage with
    | .running _ =>
      some ({ call with queue := call.queue ++ [a], issued := call.issued ++ [a] }, cl, none)
    | _ => none
  | .returns =>
    match call.stage with
    | .running i => some ({ call with stage := .committing i }, cl, none)
    | _ => none
  | .throws =>
    match call.stage with
    | .running i => some ({ call with stage := .rollingBack i }, cl, none)
    | _ => none
  | .settle ok =>
    match call.queue with
    | a :: rest => some (call.settleStatement cl a rest ok)
    | [] => call.settleControl cl ok
  | .breaks executed => if cl.broken then none else some (call.breakClient cl executed)

/-! ## A call and its client -/

/-- All statements of the call will have been committed when the call is over. -/
def Commits (call : TransactionCall α) : Prop :=
  call.stage = .fulfilled ∧ call.failed = false ∨ call.lost = true

/-- The session executes what `fn` sends, or rejects all of it. -/
structure InStep (call : TransactionCall α) (cl : TransactionClient α) : Prop where
  kept : call.lost = false
  live : cl.broken = false
  session : (call.failed = false ∧
      ∃ done, cl.transaction = .active done ∧ done ++ call.queue = call.issued) ∨
    (call.failed = true ∧ cl.transaction = .aborted)

/-- The invariant of a call and its client. -/
def Fits (call : TransactionCall α) (cl : TransactionClient α) : Prop :=
  match call.stage with
  | .setting i => call = { stage := .setting i } ∧ cl.transaction = .none
  | .beginning i => call = { stage := .beginning i } ∧ cl.transaction = .none
  | .setFailed i => call = { stage := .setFailed i } ∧ cl.transaction = .none
  | .running _ =>
    call.InStep cl ∨ (cl.broken = true ∧ cl.transaction = .none ∧ call.lost = false)
  | .committing _ => call.InStep cl ∨ (cl.broken = true ∧ cl.transaction = .none)
  | .rollingBack _ => (cl.broken = true ∧ cl.transaction = .none) ∨
    (cl.broken = false ∧ call.lost = false ∧ (call.queue ≠ [] → cl.transaction ≠ .none))
  | .connecting | .fulfilled | .rejected => True

variable {call call' : TransactionCall α} {cl cl' : TransactionClient α} {a : α}
  {rest : List α} {block : Option (List α)}

theorem commits_iff_lost (h : call.stage ≠ .fulfilled) : call.Commits ↔ call.lost = true :=
  or_iff_right fun hcommits ↦ h hcommits.1

/-- Before its end a call commits only by a COMMIT whose answer is lost. -/
theorem commits_congr (h : call.stage ≠ .fulfilled) (h' : call'.stage ≠ .fulfilled)
    (hlost : call'.lost = call.lost) : call'.Commits ↔ call.Commits := by
  rw [commits_iff_lost h, commits_iff_lost h', hlost]

theorem not_commits (h : call.stage ≠ .fulfilled) (hlost : call.lost = false) :
    ¬ call.Commits := by
  rw [commits_iff_lost h, hlost]
  exact Bool.false_ne_true

theorem InStep.not_broken (h : call.InStep cl) : ¬ cl.broken = true :=
  Bool.not_eq_true _ ▸ h.live

/-- On a live client with statements to come there is a transaction. -/
theorem Fits.transaction_ne_none (h : call.Fits cl) (hclient : call.stage.client?.isSome = true)
    (hqueue : call.queue ≠ []) (hlive : ¬ cl.broken = true) : cl.transaction ≠ .none := by
  have hstep : call.InStep cl → cl.transaction ≠ .none := by
    intro hstep hnone
    rcases hstep.session with ⟨-, done, hactive, -⟩ | ⟨-, haborted⟩
    · cases hactive.symm.trans hnone
    · cases haborted.symm.trans hnone
  obtain ⟨stage, queue, issued, failed, lost⟩ := call
  cases stage with
  | connecting => cases hclient
  | setting i | beginning i | setFailed i =>
    cases h.1
    exact absurd rfl hqueue
  | running i => exact h.elim hstep fun hbroken ↦ absurd hbroken.1 hlive
  | committing i => exact h.elim hstep fun hbroken ↦ absurd hbroken.1 hlive
  | rollingBack i => exact h.elim (fun hbroken ↦ absurd hbroken.1 hlive) fun h ↦ h.2.2 hqueue
  | fulfilled => cases hclient
  | rejected => cases hclient

/-- When the connection is lost the server ends the session. -/
theorem Fits.transaction_eq_none (h : call.Fits cl) (hclient : call.stage.client?.isSome = true)
    (hbroken : cl.broken = true) : cl.transaction = .none := by
  have hstep : ¬ call.InStep cl := fun hstep ↦ hstep.not_broken hbroken
  obtain ⟨stage, queue, issued, failed, lost⟩ := call
  cases stage with
  | connecting => cases hclient
  | setting i | beginning i | setFailed i => exact h.2
  | running i => exact (h.resolve_left hstep).2.1
  | committing i => exact (h.resolve_left hstep).2
  | rollingBack i =>
    rcases h with h | ⟨hlive, -⟩
    · exact h.2
    · cases hbroken.symm.trans hlive
  | fulfilled => cases hclient
  | rejected => cases hclient

/-- A statement is executed. -/
theorem Fits.execute {done : List α} (h : call.Fits cl) (hqueue : call.queue = a :: rest)
    (hactive : cl.transaction = .active done) (hlive : ¬ cl.broken = true) :
    Fits { call with queue := rest } { cl with transaction := .active (done ++ [a]) } := by
  have hstep : call.InStep cl →
      InStep { call with queue := rest } { cl with transaction := .active (done ++ [a]) } := by
    intro hstep
    refine ⟨hstep.kept, hstep.live, ?_⟩
    rcases hstep.session with ⟨hfailed, done', hactive', hissued⟩ | ⟨-, haborted⟩
    · cases hactive.symm.trans hactive'
      refine Or.inl ⟨hfailed, _, rfl, ?_⟩
      rw [← hissued, hqueue, List.append_assoc, List.singleton_append]
    · cases haborted.symm.trans hactive
  obtain ⟨stage, queue, issued, failed, lost⟩ := call
  cases stage with
  | setting i | beginning i | setFailed i => cases h.2.symm.trans hactive
  | running i =>
    exact h.elim (fun h ↦ Or.inl (hstep h)) fun hbroken ↦ absurd hbroken.1 hlive
  | committing i =>
    exact h.elim (fun h ↦ Or.inl (hstep h)) fun hbroken ↦ absurd hbroken.1 hlive
  | rollingBack i =>
    refine h.elim (fun hbroken ↦ absurd hbroken.1 hlive) fun h ↦ Or.inr ⟨h.1, h.2.1, fun _ ↦ ?_⟩
    rintro ⟨⟩
  | connecting | fulfilled | rejected => trivial

/-- A statement is rejected: nothing is executed any more. -/
theorem Fits.reject (h : call.Fits cl) (hqueue : call.queue ≠ []) (hbroken : cl'.broken = cl.broken)
    (htransaction : cl'.transaction = if cl.broken then .none else .aborted) :
    Fits { call with queue := rest, failed := true } cl' := by
  have hgone : cl.broken = true → cl'.broken = true ∧ cl'.transaction = .none := fun hlost ↦
    ⟨hbroken.trans hlost, htransaction.trans (if_pos hlost)⟩
  have hstep : call.InStep cl → InStep { call with queue := rest, failed := true } cl' :=
    fun hstep ↦ ⟨hstep.kept, hbroken.trans hstep.live,
      Or.inr ⟨rfl, htransaction.trans (if_neg hstep.not_broken)⟩⟩
  obtain ⟨stage, queue, issued, failed, lost⟩ := call
  cases stage with
  | setting i | beginning i | setFailed i =>
    cases h.1
    exact absurd rfl hqueue
  | running i =>
    rcases h with h | ⟨hlost, -, hkept⟩
    · exact Or.inl (hstep h)
    · exact Or.inr ⟨(hgone hlost).1, (hgone hlost).2, hkept⟩
  | committing i =>
    rcases h with h | ⟨hlost, -⟩
    · exact Or.inl (hstep h)
    · exact Or.inr (hgone hlost)
  | rollingBack i =>
    rcases h with ⟨hlost, -⟩ | ⟨hlive, hkept, -⟩
    · exact Or.inl (hgone hlost)
    · refine Or.inr ⟨hbroken.trans hlive, hkept, fun _ ↦ ?_⟩
      rw [htransaction, hlive]
      rintro ⟨⟩
  | connecting | fulfilled | rejected => trivial

/-! ## A step of a call -/

/-- What a step of a call has done. A call commits once, and everything. -/
structure Acted (call : TransactionCall α) (cl : TransactionClient α) (call' : TransactionCall α)
    (cl' : TransactionClient α) (block : Option (List α)) : Prop where
  goes : (call'.stage.client? = call.stage.client? ∧ cl'.held = cl.held ∧ call'.Fits cl') ∨
    (call'.stage.client? = none ∧ call'.stage ≠ .connecting ∧ cl'.held = false ∧
      cl'.transaction = .none)
  silent : block = none → (call'.Commits ↔ call.Commits)
  commits : ∀ b, block = some b → ¬ call.Commits ∧ call'.Commits ∧ b = call'.issued
  issued : call.Commits → call'.issued = call.issued

/-- Nothing is committed. -/
theorem acted_of_none
    (hgoes : (call'.stage.client? = call.stage.client? ∧ cl'.held = cl.held ∧ call'.Fits cl') ∨
      (call'.stage.client? = none ∧ call'.stage ≠ .connecting ∧ cl'.held = false ∧
        cl'.transaction = .none))
    (hcommits : call'.Commits ↔ call.Commits)
    (hissued : call.Commits → call'.issued = call.issued) :
    Acted call cl call' cl' none :=
  ⟨hgoes, fun _ ↦ hcommits, fun b hb ↦ (by cases hb), hissued⟩

theorem stage_ne_fulfilled (hclient : call.stage.client?.isSome = true) :
    call.stage ≠ .fulfilled := by
  intro hstage
  rw [hstage] at hclient
  cases hclient

theorem acted_settleStatement (h : call.Fits cl) (hqueue : call.queue = a :: rest)
    (hclient : call.stage.client?.isSome = true) (ok : Bool) :
    Acted call cl (call.settleStatement cl a rest ok).1 (call.settleStatement cl a rest ok).2.1
      (call.settleStatement cl a rest ok).2.2 := by
  have hne : call.queue ≠ [] := hqueue ▸ List.cons_ne_nil a rest
  have hstage := stage_ne_fulfilled hclient
  have hstays : ∀ (failed : Bool) (cl' : TransactionClient α), cl'.held = cl.held →
      Fits { call with queue := rest, failed := failed } cl' →
      Acted call cl { call with queue := rest, failed := failed } cl' none := by
    intro failed cl' hheld hfits
    exact acted_of_none (Or.inl ⟨rfl, hheld, hfits⟩) (commits_congr hstage hstage rfl) fun _ ↦ rfl
  rw [settleStatement]
  split
  · rename_i hbroken
    have hnone := h.transaction_eq_none hclient hbroken
    exact hstays true cl rfl (h.reject hne rfl (hnone.trans (if_pos hbroken).symm))
  · rename_i hlive
    split
    · rename_i done hactive
      split
      · exact hstays call.failed _ rfl (h.execute hqueue hactive hlive)
      · exact hstays true _ rfl (h.reject hne rfl (if_neg hlive).symm)
    · rename_i haborted
      exact hstays true cl rfl (h.reject hne rfl (haborted.trans (if_neg hlive).symm))
    · -- while `fn` has statements in the queue there is a transaction
      rename_i hnone
      exact absurd hnone (h.transaction_ne_none hclient hne hlive)

theorem acted_settleControl (h : call.Fits cl) (hqueue : call.queue = []) {ok : Bool}
    (hact : call.settleControl cl ok = some (call', cl', block)) :
    Acted call cl call' cl' block := by
  obtain ⟨stage, queue, issued, failed, lost⟩ := call
  obtain rfl : queue = [] := hqueue
  cases stage with
  | connecting | running i | fulfilled | rejected | setFailed i => cases hact
  | setting i =>
    obtain ⟨hfresh, hnone⟩ := h
    cases hfresh
    simp only [settleControl] at hact
    split at hact <;>
    · cases hact
      exact acted_of_none (Or.inl ⟨rfl, rfl, rfl, hnone⟩)
        (commits_congr (by rintro ⟨⟩) (by rintro ⟨⟩) rfl) fun _ ↦ rfl
  | beginning i =>
    obtain ⟨hfresh, hnone⟩ := h
    cases hfresh
    simp only [settleControl] at hact
    split at hact
    · rename_i hok
      cases hact
      have hlive : cl.broken = false := (Bool.not_eq_true' _).mp (Bool.and_eq_true_iff.mp hok).2
      refine acted_of_none (Or.inl ⟨rfl, rfl, Or.inl ⟨rfl, hlive, ?_⟩⟩)
        (commits_congr (by rintro ⟨⟩) (by rintro ⟨⟩) rfl) fun _ ↦ rfl
      exact Or.inl ⟨rfl, [], rfl, rfl⟩
    · cases hact
      refine acted_of_none (Or.inl ⟨rfl, rfl, ?_⟩)
        (commits_congr (by rintro ⟨⟩) (by rintro ⟨⟩) rfl) fun _ ↦ rfl
      cases hbroken : cl.broken with
      | true => exact Or.inl ⟨hbroken, hnone⟩
      | false => exact Or.inr ⟨hbroken, rfl, fun hne ↦ absurd rfl hne⟩
  | committing i =>
    simp only [settleControl] at hact
    split at hact
    · rename_i hok
      have hlive : cl.broken = false := (Bool.not_eq_true' _).mp (Bool.and_eq_true_iff.mp hok).2
      have hstep := h.resolve_right fun hbroken ↦ Bool.false_ne_true (hlive.symm.trans hbroken.1)
      have hkept : lost = false := hstep.kept
      subst hkept
      rcases hstep.session with ⟨hfailed, done, hactive, hissued⟩ | ⟨hfailed, haborted⟩
      · -- the queue is empty, so that all that was sent has been executed
        rw [hactive] at hact
        cases hact
        refine ⟨Or.inr ⟨rfl, by rintro ⟨⟩, rfl, rfl⟩, fun hblock ↦ (by cases hblock), ?_,
          fun _ ↦ rfl⟩
        intro b hb
        cases hb
        refine ⟨not_commits (by rintro ⟨⟩) rfl, Or.inl ⟨rfl, hfailed⟩, ?_⟩
        rw [← hissued]
        exact (List.append_nil _).symm
      · -- the COMMIT is a ROLLBACK, and the call is fulfilled all the same
        rw [haborted] at hact
        cases hact
        refine acted_of_none (Or.inr ⟨rfl, by rintro ⟨⟩, rfl, rfl⟩) ?_ fun _ ↦ rfl
        obtain rfl : failed = true := hfailed
        constructor
        · rintro (⟨-, hfailed⟩ | hlost)
          · cases hfailed
          · cases hlost
        · intro hcommits
          exact absurd hcommits (not_commits (by rintro ⟨⟩) rfl)
    · cases hact
      refine acted_of_none (Or.inl ⟨rfl, rfl, ?_⟩)
        (commits_congr (by rintro ⟨⟩) (by rintro ⟨⟩) rfl) fun _ ↦ rfl
      rcases h with h | hbroken
      · exact Or.inr ⟨h.live, h.kept, fun hne ↦ absurd rfl hne⟩
      · exact Or.inl ⟨hbroken.1, rfl⟩
  | rollingBack i =>
    simp only [settleControl] at hact
    split at hact
    · cases hact
      exact acted_of_none (Or.inr ⟨rfl, by rintro ⟨⟩, rfl, rfl⟩)
        (commits_congr (by rintro ⟨⟩) (by rintro ⟨⟩) rfl) fun _ ↦ rfl
    · cases hact

theorem Fits.breaks (h : call.Fits cl) {held : Bool} :
    Fits call { held := held, broken := true, transaction := .none } := by
  obtain ⟨stage, queue, issued, failed, lost⟩ := call
  cases stage with
  | setting i | beginning i | setFailed i => exact ⟨h.1, rfl⟩
  | running i =>
    refine Or.inr ⟨rfl, rfl, ?_⟩
    rcases h with h | h
    · exact h.kept
    · exact h.2.2
  | committing i => exact Or.inr ⟨rfl, rfl⟩
  | rollingBack i => exact Or.inl ⟨rfl, rfl⟩
  | connecting | fulfilled | rejected => trivial

theorem acted_breakClient (h : call.Fits cl) (hlive : ¬ cl.broken = true) (executed : Bool) :
    Acted call cl (call.breakClient cl executed).1 (call.breakClient cl executed).2.1
      (call.breakClient cl executed).2.2 := by
  have hstays : Acted call cl call { cl with transaction := .none, broken := true } none :=
    acted_of_none (Or.inl ⟨rfl, rfl, h.breaks⟩) Iff.rfl fun _ ↦ rfl
  rw [breakClient]
  split
  · rename_i i done hstage hqueue hactive
    split
    · obtain ⟨stage, queue, issued, failed, lost⟩ := call
      obtain rfl : stage = .committing i := hstage
      obtain rfl : queue = [] := hqueue
      obtain ⟨hkept, -, hstep⟩ := h.resolve_right fun hbroken ↦ hlive hbroken.1
      obtain rfl : lost = false := hkept
      refine ⟨Or.inl ⟨rfl, rfl, Or.inr ⟨rfl, rfl⟩⟩, fun hblock ↦ (by cases hblock), ?_,
        fun _ ↦ rfl⟩
      intro b hb
      cases hb
      refine ⟨not_commits (by rintro ⟨⟩) rfl, Or.inr rfl, ?_⟩
      rcases hstep with ⟨-, done', hactive', hissued⟩ | ⟨-, haborted⟩
      · cases hactive.symm.trans hactive'
        rw [← hissued]
        exact (List.append_nil _).symm
      · cases haborted.symm.trans hactive
    · exact hstays
  · exact hstays

/-- **Step lemma.** -/
theorem acted_of_act {action : TransactionAction α} (h : call.Fits cl)
    (hclient : call.stage.client?.isSome = true)
    (hact : call.act cl action = some (call', cl', block)) : Acted call cl call' cl' block := by
  cases action with
  | issue a =>
    obtain ⟨stage, queue, issued, failed, lost⟩ := call
    cases stage with
    | running i =>
      cases hact
      have hkept : lost = false := h.elim (fun h ↦ h.kept) fun h ↦ h.2.2
      refine acted_of_none (Or.inl ⟨rfl, rfl, ?_⟩)
        (commits_congr (by rintro ⟨⟩) (by rintro ⟨⟩) rfl) fun hcommits ↦ ?_
      · rcases h with ⟨-, hlive, ⟨hfailed, done, hactive, hissued⟩ | ⟨hfailed, haborted⟩⟩ | h
        · refine Or.inl ⟨hkept, hlive, Or.inl ⟨hfailed, done, hactive, ?_⟩⟩
          rw [← List.append_assoc, hissued]
        · exact Or.inl ⟨hkept, hlive, Or.inr ⟨hfailed, haborted⟩⟩
        · exact Or.inr h
      · rw [commits_iff_lost (by rintro ⟨⟩)] at hcommits
        cases hkept.symm.trans hcommits
    | _ => cases hact
  | returns =>
    obtain ⟨stage, queue, issued, failed, lost⟩ := call
    cases stage with
    | running i =>
      cases hact
      refine acted_of_none (Or.inl ⟨rfl, rfl, ?_⟩)
        (commits_congr (by rintro ⟨⟩) (by rintro ⟨⟩) rfl) fun _ ↦ rfl
      rcases h with h | h
      · exact Or.inl ⟨h.kept, h.live, h.session⟩
      · exact Or.inr ⟨h.1, h.2.1⟩
    | _ => cases hact
  | throws =>
    have hnone := h.transaction_ne_none hclient
    obtain ⟨stage, queue, issued, failed, lost⟩ := call
    cases stage with
    | running i =>
      cases hact
      refine acted_of_none (Or.inl ⟨rfl, rfl, ?_⟩)
        (commits_congr (by rintro ⟨⟩) (by rintro ⟨⟩) rfl) fun _ ↦ rfl
      rcases h with h | h
      · exact Or.inr ⟨h.live, h.kept, fun hqueue ↦ hnone hqueue h.not_broken⟩
      · exact Or.inl ⟨h.1, h.2.1⟩
    | _ => cases hact
  | settle ok =>
    simp only [act] at hact
    split at hact
    · rename_i a rest hqueue
      have hacted := acted_settleStatement h hqueue hclient ok
      rwa [Option.some.inj hact] at hacted
    · rename_i hqueue
      exact acted_settleControl h hqueue hact
  | breaks executed =>
    simp only [act] at hact
    split at hact
    · cases hact
    · rename_i hlive
      have hacted := acted_breakClient h hlive executed
      rwa [Option.some.inj hact] at hacted

end TransactionCall

/-! ## The pool -/

/-- The clients, the calls, and what has been committed, by call. -/
structure Transactions (α : Type) where
  clients : List (TransactionClient α) := []
  calls : List (TransactionCall α) := []
  committed : List (ℕ × List α) := []
  deriving DecidableEq

/-- What can happen next. -/
inductive TransactionEvent (α : Type) where
  | call
  /-- The pool gives the idle client `i` to call `k`. -/
  | handOut (k i : ℕ)
  /-- The pool connects a client for call `k`. -/
  | openClient (k : ℕ)
  /-- Connecting fails or takes too long. -/
  | refuse (k : ℕ)
  | act (k : ℕ) (action : TransactionAction α)
  /-- The connection of an idle client is lost. -/
  | breaks (i : ℕ)
  deriving DecidableEq

namespace Transactions

variable {α : Type}

/-- The step of an event, `none` when it cannot happen. -/
def step (t : Transactions α) : TransactionEvent α → Option (Transactions α)
  | .call => some { t with calls := t.calls ++ [{}] }
  | .handOut k i => do
    let call ← t.calls[k]?
    let cl ← t.clients[i]?
    guard (call.stage = .connecting ∧ cl.held = false ∧ cl.broken = false)
    return { t with
      clients := t.clients.set i { cl with held := true }
      calls := t.calls.set k { call with stage := .setting i } }
  | .openClient k => do
    let call ← t.calls[k]?
    guard (call.stage = .connecting)
    return { t with
      clients := t.clients ++ [{}]
      calls := t.calls.set k { call with stage := .setting t.clients.length } }
  | .refuse k => do
    let call ← t.calls[k]?
    guard (call.stage = .connecting)
    return { t with calls := t.calls.set k { call with stage := .rejected } }
  | .act k action => do
    let call ← t.calls[k]?
    let i ← call.stage.client?
    let cl ← t.clients[i]?
    let (call', cl', block) ← call.act cl action
    return {
      clients := t.clients.set i cl'
      calls := t.calls.set k call'
      committed := t.committed ++ (block.map fun b ↦ (k, b)).toList }
  | .breaks i => do
    let cl ← t.clients[i]?
    guard (cl.held = false)
    return { t with clients := t.clients.set i { cl with broken := true, transaction := .none } }

/-! ## Runs -/

/-- The invariant. Clients are held one by one, a client that nobody holds has no transaction, and
what is committed are the calls that `Commits` names, each once and as a whole. -/
structure Atomic (t : Transactions α) : Prop where
  holds : ∀ (k i : ℕ) (call : TransactionCall α), t.calls[k]? = some call →
    call.stage.client? = some i → ∃ cl, t.clients[i]? = some cl ∧ cl.held = true ∧ call.Fits cl
  one : ∀ (k k' i : ℕ) (call call' : TransactionCall α), t.calls[k]? = some call →
    t.calls[k']? = some call' → call.stage.client? = some i → call'.stage.client? = some i → k = k'
  holder : ∀ (i : ℕ) (cl : TransactionClient α), t.clients[i]? = some cl → cl.held = true →
    ∃ (k : ℕ) (call : TransactionCall α), t.calls[k]? = some call ∧ call.stage.client? = some i
  free : ∀ (i : ℕ) (cl : TransactionClient α), t.clients[i]? = some cl → cl.held = false →
    cl.transaction = .none
  fresh : ∀ call ∈ t.calls, call.stage = .connecting → call = {}
  committed : ∀ (k : ℕ) (block : List α), (k, block) ∈ t.committed ↔
    ∃ call, t.calls[k]? = some call ∧ block = call.issued ∧ call.Commits
  once : (t.committed.map Prod.fst).Nodup

variable {t t' : Transactions α} {k i : ℕ} {call call' : TransactionCall α}
  {cl cl' : TransactionClient α} {block : Option (List α)}

/-- Nothing has been committed for a call that has not come to its COMMIT. -/
theorem Atomic.committed_of_congr (h : t.Atomic) (hget : t.calls[k]? = some call)
    (hcommits : call'.Commits ↔ call.Commits) (hissued : call.Commits → call'.issued = call.issued)
    (k' : ℕ) (block : List α) : (k', block) ∈ t.committed ↔
      ∃ call'', (t.calls.set k call')[k']? = some call'' ∧ block = call''.issued ∧
        call''.Commits := by
  rw [h.committed]
  have hlt := (List.getElem?_eq_some_iff.mp hget).1
  by_cases hk : k = k'
  · subst hk
    rw [List.getElem?_set_self hlt, hget]
    constructor
    · rintro ⟨_, ⟨⟩, hblock, hcall⟩
      exact ⟨call', rfl, hblock.trans (hissued hcall).symm, hcommits.mpr hcall⟩
    · rintro ⟨_, ⟨⟩, hblock, hcall⟩
      have hcall := hcommits.mp hcall
      exact ⟨call, rfl, hblock.trans (hissued hcall), hcall⟩
  · rw [List.getElem?_set_ne hk]

/-- What is committed with the last statement of a call. -/
theorem Atomic.committed_concat (h : t.Atomic) (hget : t.calls[k]? = some call) {b : List α}
    (hnot : ¬ call.Commits) (hcommits : call'.Commits) (hissued : b = call'.issued) (k' : ℕ)
    (block : List α) : (k', block) ∈ t.committed ++ [(k, b)] ↔
      ∃ call'', (t.calls.set k call')[k']? = some call'' ∧ block = call''.issued ∧
        call''.Commits := by
  rw [List.mem_append, List.mem_singleton, h.committed]
  have hlt := (List.getElem?_eq_some_iff.mp hget).1
  by_cases hk : k = k'
  · subst hk
    rw [List.getElem?_set_self hlt, hget]
    constructor
    · rintro (⟨_, ⟨⟩, -, hcall⟩ | hnew)
      · exact absurd hcall hnot
      · cases hnew
        exact ⟨call', rfl, hissued, hcommits⟩
    · rintro ⟨_, ⟨⟩, hblock, -⟩
      exact Or.inr (by rw [hblock, hissued])
  · rw [List.getElem?_set_ne hk, or_iff_left fun hnew ↦ hk (Prod.ext_iff.mp hnew).1.symm]

/-- A call is given a client that nobody holds. -/
theorem Atomic.take (h : t.Atomic) (hget : t.calls[k]? = some call)
    (hconnecting : call.stage = .connecting) {clients : List (TransactionClient α)}
    (hnew : clients[i]? = some cl) (hheld : cl.held = true) (hnone : cl.transaction = .none)
    (hothers : ∀ j, j ≠ i → clients[j]? = t.clients[j]?)
    (hfree : ∀ cl, t.clients[i]? = some cl → cl.held = false) :
    Atomic { t with
      clients := clients
      calls := t.calls.set k { call with stage := .setting i } } := by
  obtain rfl := h.fresh call (List.mem_of_getElem? hget) hconnecting
  have hlt := (List.getElem?_eq_some_iff.mp hget).1
  have hold : ∀ (k' j : ℕ) (call' : TransactionCall α), t.calls[k']? = some call' →
      call'.stage.client? = some j → j ≠ i := by
    rintro k' _ call' hget' hclient rfl
    obtain ⟨cl', hcl', hheld', -⟩ := h.holds k' _ call' hget' hclient
    rw [hfree cl' hcl'] at hheld'
    cases hheld'
  refine ⟨fun k' j call' hget' hclient ↦ ?_, fun k₁ k₂ j call₁ call₂ hget₁ hget₂ h₁ h₂ ↦ ?_,
    fun j cl' hcl' hheld' ↦ ?_, fun j cl' hcl' hheld' ↦ ?_, fun call' hmem hstage ↦ ?_, ?_, h.once⟩
  · rcases Lists.of_getElem?_set hget' with ⟨-, hget'⟩ | ⟨-, rfl⟩
    · obtain ⟨cl', hcl', hheld', hfits⟩ := h.holds k' j call' hget' hclient
      exact ⟨cl', (hothers j (hold k' j call' hget' hclient)).trans hcl', hheld', hfits⟩
    · cases hclient
      exact ⟨cl, hnew, hheld, rfl, hnone⟩
  · rcases Lists.of_getElem?_set hget₁ with ⟨-, hget₁⟩ | ⟨rfl, rfl⟩ <;>
      rcases Lists.of_getElem?_set hget₂ with ⟨-, hget₂⟩ | ⟨rfl, rfl⟩
    · exact h.one k₁ k₂ j call₁ call₂ hget₁ hget₂ h₁ h₂
    · cases h₂
      exact absurd rfl (hold k₁ _ call₁ hget₁ h₁)
    · cases h₁
      exact absurd rfl (hold k₂ _ call₂ hget₂ h₂)
    · rfl
  · by_cases hj : j = i
    · subst hj
      exact ⟨k, _, List.getElem?_set_self hlt, rfl⟩
    · obtain ⟨k', call', hget', hclient⟩ := h.holder j cl' ((hothers j hj).symm.trans hcl') hheld'
      refine ⟨k', call', (List.getElem?_set_ne ?_).trans hget', hclient⟩
      rintro rfl
      cases hget.symm.trans hget'
      cases hclient
  · by_cases hj : j = i
    · subst hj
      cases hnew.symm.trans hcl'
      rw [hheld] at hheld'
      cases hheld'
    · exact h.free j cl' ((hothers j hj).symm.trans hcl') hheld'
  · rcases List.mem_or_eq_of_mem_set hmem with hmem | rfl
    · exact h.fresh call' hmem hstage
    · cases hstage
  · exact h.committed_of_congr hget
      (TransactionCall.commits_congr (by rintro ⟨⟩) (by rintro ⟨⟩) rfl) fun _ ↦ rfl

/-- A call goes on, or ends and releases its client. -/
theorem Atomic.act (h : t.Atomic) (hget : t.calls[k]? = some call)
    (hclient : call.stage.client? = some i) (hcl : t.clients[i]? = some cl)
    (hacted : call.Acted cl call' cl' block) :
    Atomic {
      clients := t.clients.set i cl'
      calls := t.calls.set k call'
      committed := t.committed ++ (block.map fun b ↦ (k, b)).toList } := by
  have hlt := (List.getElem?_eq_some_iff.mp hget).1
  have hlt' := (List.getElem?_eq_some_iff.mp hcl).1
  have hheld : cl.held = true := by
    obtain ⟨_, hcl₀, hheld, -⟩ := h.holds k i call hget hclient
    cases hcl.symm.trans hcl₀
    exact hheld
  -- the other calls have other clients
  have hothers : ∀ (k' j : ℕ) (call'' : TransactionCall α), t.calls[k']? = some call'' →
      call''.stage.client? = some j → (i = j ↔ k = k') := by
    intro k' j call'' hget' hclient'
    constructor
    · rintro rfl
      exact h.one k k' i call call'' hget hget' hclient hclient'
    · rintro rfl
      cases hget.symm.trans hget'
      exact Option.some.inj (hclient.symm.trans hclient')
  have hgoes : call'.stage.client? = some i ∧ cl'.held = true ∧ call'.Fits cl' ∨
      call'.stage.client? = none ∧ cl'.held = false ∧ cl'.transaction = .none := by
    rcases hacted.goes with ⟨hsame, hheld', hfits⟩ | ⟨hnone, -, hheld', htransaction⟩
    · exact Or.inl ⟨hsame.trans hclient, hheld'.trans hheld, hfits⟩
    · exact Or.inr ⟨hnone, hheld', htransaction⟩
  refine ⟨fun k' j call'' hget' hclient' ↦ ?_, fun k₁ k₂ j call₁ call₂ hget₁ hget₂ h₁ h₂ ↦ ?_,
    fun j cl'' hcl'' hheld' ↦ ?_, fun j cl'' hcl'' hheld' ↦ ?_, fun call'' hmem hstage ↦ ?_, ?_, ?_⟩
  · rcases Lists.of_getElem?_set hget' with ⟨hne, hget'⟩ | ⟨-, rfl⟩
    · obtain ⟨cl'', hcl'', hold⟩ := h.holds k' j call'' hget' hclient'
      have hj : i ≠ j := fun hj ↦ hne ((hothers k' j call'' hget' hclient').mp hj)
      exact ⟨cl'', (List.getElem?_set_ne hj).trans hcl'', hold⟩
    · rcases hgoes with ⟨hsame, hheld', hfits⟩ | ⟨hnone, -⟩
      · cases hsame.symm.trans hclient'
        exact ⟨cl', List.getElem?_set_self hlt', hheld', hfits⟩
      · cases hnone.symm.trans hclient'
  · have hold : ∀ (k' : ℕ) (call'' : TransactionCall α),
        (t.calls.set k call')[k']? = some call'' → call''.stage.client? = some j →
        ∃ call₀, t.calls[k']? = some call₀ ∧ call₀.stage.client? = some j := by
      intro k' call'' hget' hclient'
      rcases Lists.of_getElem?_set hget' with ⟨-, hget'⟩ | ⟨rfl, rfl⟩
      · exact ⟨call'', hget', hclient'⟩
      · rcases hgoes with ⟨hsame, -⟩ | ⟨hnone, -⟩
        · cases hsame.symm.trans hclient'
          exact ⟨call, hget, hclient⟩
        · cases hnone.symm.trans hclient'
    obtain ⟨call₁', hget₁', h₁'⟩ := hold k₁ call₁ hget₁ h₁
    obtain ⟨call₂', hget₂', h₂'⟩ := hold k₂ call₂ hget₂ h₂
    exact h.one k₁ k₂ j call₁' call₂' hget₁' hget₂' h₁' h₂'
  · rcases Lists.of_getElem?_set hcl'' with ⟨hne, hcl''⟩ | ⟨rfl, rfl⟩
    · obtain ⟨k', call'', hget', hclient'⟩ := h.holder j cl'' hcl'' hheld'
      have hk : k ≠ k' := fun hk ↦ hne ((hothers k' j call'' hget' hclient').mpr hk)
      exact ⟨k', call'', (List.getElem?_set_ne hk).trans hget', hclient'⟩
    · rcases hgoes with ⟨hsame, -⟩ | ⟨-, hnot, -⟩
      · exact ⟨k, call', List.getElem?_set_self hlt, hsame⟩
      · cases hnot.symm.trans hheld'
  · rcases Lists.of_getElem?_set hcl'' with ⟨-, hcl''⟩ | ⟨-, rfl⟩
    · exact h.free j cl'' hcl'' hheld'
    · rcases hgoes with ⟨-, hholds, -⟩ | ⟨-, -, htransaction⟩
      · cases hholds.symm.trans hheld'
      · exact htransaction
  · rcases List.mem_or_eq_of_mem_set hmem with hmem | rfl
    · exact h.fresh call'' hmem hstage
    · rcases hacted.goes with ⟨hsame, -⟩ | ⟨-, hne, -⟩
      · rw [hstage, hclient] at hsame
        cases hsame
      · exact absurd hstage hne
  · cases block with
    | none =>
      intro k' block'
      rw [Option.map_none, Option.toList_none, List.append_nil]
      exact h.committed_of_congr hget (hacted.silent rfl) hacted.issued k' block'
    | some b =>
      obtain ⟨hnot, hcommits, hissued⟩ := hacted.commits b rfl
      exact h.committed_concat hget hnot hcommits hissued
  · cases block with
    | none =>
      rw [Option.map_none, Option.toList_none, List.append_nil]
      exact h.once
    | some b =>
      have hnotMem : k ∉ t.committed.map Prod.fst := by
        intro hmem
        obtain ⟨⟨_, block'⟩, hentry, rfl⟩ := List.mem_map.mp hmem
        obtain ⟨call'', hget', -, hcommits⟩ := (h.committed _ block').mp hentry
        cases hget.symm.trans hget'
        exact (hacted.commits b rfl).1 hcommits
      rw [Option.map_some, Option.toList_some, List.map_append, List.nodup_append']
      refine ⟨h.once, List.nodup_singleton k, fun k' hk' hsingle ↦ ?_⟩
      obtain rfl := List.mem_singleton.mp hsingle
      exact hnotMem hk'

/-- **Step lemma.** -/
theorem Atomic.step (h : t.Atomic) {e : TransactionEvent α} (hstep : t.step e = some t') :
    t'.Atomic := by
  cases e with
  | call =>
    cases hstep
    have hold : ∀ (k i : ℕ) (call : TransactionCall α),
        (t.calls ++ [({} : TransactionCall α)])[k]? = some call →
        call.stage.client? = some i → t.calls[k]? = some call := by
      intro k i call hget hclient
      rcases Lists.getElem?_concat_eq_some.mp hget with hget | ⟨-, rfl⟩
      · exact hget
      · cases hclient
    refine ⟨fun k i call hget hclient ↦ h.holds k i call (hold k i call hget hclient) hclient,
      fun k k' i call call' hget hget' hclient hclient' ↦ ?_, fun i cl hcl hheld ↦ ?_, h.free,
      fun call hmem hstage ↦ ?_, fun k block ↦ ?_, h.once⟩
    · exact h.one k k' i call call' (hold k i call hget hclient) (hold k' i call' hget' hclient')
        hclient hclient'
    · obtain ⟨k, call, hget, hclient⟩ := h.holder i cl hcl hheld
      exact ⟨k, call, Lists.getElem?_concat_eq_some.mpr (Or.inl hget), hclient⟩
    · rcases List.mem_append.mp hmem with hmem | hmem
      · exact h.fresh call hmem hstage
      · exact List.mem_singleton.mp hmem
    · rw [h.committed]
      refine exists_congr fun call ↦ and_congr_left fun hcommits ↦ ?_
      rw [Lists.getElem?_concat_eq_some, or_iff_left]
      -- the new call has committed nothing
      rintro ⟨-, rfl⟩
      rcases hcommits.2 with ⟨hstage, -⟩ | hlost
      · cases hstage
      · cases hlost
  | handOut k i =>
    simp only [Transactions.step, Option.bind_eq_bind, Option.bind_eq_some_iff,
      Option.guard_eq_some'] at hstep
    obtain ⟨call, hget, cl, hcl, -, ⟨hconnecting, hheld, -⟩, hstep⟩ := hstep
    cases hstep
    refine h.take hget hconnecting (List.getElem?_set_self (List.getElem?_eq_some_iff.mp hcl).1)
      rfl (h.free i cl hcl hheld) (fun j hj ↦ List.getElem?_set_ne hj.symm) fun cl' hcl' ↦ ?_
    cases hcl.symm.trans hcl'
    exact hheld
  | openClient k =>
    simp only [Transactions.step, Option.bind_eq_bind, Option.bind_eq_some_iff,
      Option.guard_eq_some'] at hstep
    obtain ⟨call, hget, -, hconnecting, hstep⟩ := hstep
    cases hstep
    have hend : t.clients[t.clients.length]? = none := List.getElem?_eq_none (Nat.le_refl _)
    refine h.take hget hconnecting List.getElem?_concat_length rfl rfl (fun j hj ↦ ?_) ?_
    · rcases Nat.lt_or_gt_of_ne hj with hlt | hgt
      · exact List.getElem?_append_left hlt
      · rw [List.getElem?_eq_none (Nat.le_of_lt hgt), List.getElem?_eq_none]
        rwa [List.length_append, List.length_singleton]
    · intro cl hcl
      cases hend.symm.trans hcl
  | refuse k =>
    simp only [Transactions.step, Option.bind_eq_bind, Option.bind_eq_some_iff,
      Option.guard_eq_some'] at hstep
    obtain ⟨call, hget, -, hconnecting, hstep⟩ := hstep
    cases hstep
    have hnone : call.stage.client? = none := by rw [hconnecting]; rfl
    have hold : ∀ (k' i : ℕ) (call' : TransactionCall α),
        (t.calls.set k { call with stage := .rejected })[k']? = some call' →
        call'.stage.client? = some i → t.calls[k']? = some call' := by
      intro k' i call' hget' hclient
      rcases Lists.of_getElem?_set hget' with ⟨-, hget'⟩ | ⟨-, rfl⟩
      · exact hget'
      · cases hclient
    refine ⟨fun k' i call' hget' hclient ↦ h.holds k' i call' (hold k' i call' hget' hclient)
      hclient, fun k₁ k₂ i call₁ call₂ hget₁ hget₂ h₁ h₂ ↦ ?_, fun i cl hcl hheld ↦ ?_, h.free,
      fun call' hmem hstage ↦ ?_, ?_, h.once⟩
    · exact h.one k₁ k₂ i call₁ call₂ (hold k₁ i call₁ hget₁ h₁) (hold k₂ i call₂ hget₂ h₂) h₁ h₂
    · obtain ⟨k', call', hget', hclient⟩ := h.holder i cl hcl hheld
      refine ⟨k', call', (List.getElem?_set_ne ?_).trans hget', hclient⟩
      rintro rfl
      cases hget.symm.trans hget'
      cases hnone.symm.trans hclient
    · rcases List.mem_or_eq_of_mem_set hmem with hmem | rfl
      · exact h.fresh call' hmem hstage
      · cases hstage
    · refine h.committed_of_congr hget (TransactionCall.commits_congr ?_ ?_ rfl) fun _ ↦ rfl
      · rw [hconnecting]
        rintro ⟨⟩
      · rintro ⟨⟩
  | act k action =>
    simp only [Transactions.step, Option.bind_eq_bind, Option.bind_eq_some_iff] at hstep
    obtain ⟨call, hget, i, hclient, cl, hcl, ⟨call', cl', block⟩, hact, hstep⟩ := hstep
    cases hstep
    obtain ⟨_, hcl₀, -, hfits⟩ := h.holds k i call hget hclient
    cases hcl.symm.trans hcl₀
    exact h.act hget hclient hcl
      (TransactionCall.acted_of_act hfits (Option.isSome_of_eq_some hclient) hact)
  | breaks i =>
    simp only [Transactions.step, Option.bind_eq_bind, Option.bind_eq_some_iff,
      Option.guard_eq_some'] at hstep
    obtain ⟨cl, hcl, -, hfree, hstep⟩ := hstep
    cases hstep
    refine ⟨fun k j call hget hclient ↦ ?_, h.one, fun j cl' hcl' hheld ↦ ?_,
      fun j cl' hcl' hheld ↦ ?_, h.fresh, h.committed, h.once⟩
    · obtain ⟨cl', hcl', hheld, hfits⟩ := h.holds k j call hget hclient
      refine ⟨cl', (List.getElem?_set_ne ?_).trans hcl', hheld, hfits⟩
      rintro rfl
      cases hcl.symm.trans hcl'
      cases hfree.symm.trans hheld
    · rcases Lists.of_getElem?_set hcl' with ⟨-, hcl'⟩ | ⟨-, rfl⟩
      · exact h.holder j cl' hcl' hheld
      · cases hfree.symm.trans hheld
    · rcases Lists.of_getElem?_set hcl' with ⟨-, hcl'⟩ | ⟨-, rfl⟩
      · exact h.free j cl' hcl' hheld
      · rfl

/-- What is left to the pool, the server and the functions when no call is made, the functions send
nothing more, and no connection is lost. -/
def Responds (_ : Transactions α) : TransactionEvent α → Prop
  | .call | .breaks _ | .act _ (.issue _) | .act _ (.breaks _) => False
  | .handOut .. | .openClient _ | .refuse _ => True
  | .act _ .returns | .act _ .throws | .act _ (.settle _) => True

/-- The awaits that a call has still before it. -/
def stagesLeft : TransactionStage → ℕ
  | .connecting => 6
  | .setting _ => 5
  | .beginning _ => 4
  | .running _ => 3
  | .committing _ => 2
  | .rollingBack _ => 1
  | .fulfilled | .rejected | .setFailed _ => 0

def callWork (call : TransactionCall α) : ℕ := stagesLeft call.stage + call.queue.length

def work (t : Transactions α) : ℕ := (t.calls.map callWork).sum

theorem callWork_settleStatement {a : α} {rest : List α} (hqueue : call.queue = a :: rest)
    (ok : Bool) : callWork (call.settleStatement cl a rest ok).1 < callWork call := by
  have hlt : stagesLeft call.stage + rest.length < callWork call := by
    rw [callWork, hqueue, List.length_cons]
    omega
  rw [TransactionCall.settleStatement]
  split
  · exact hlt
  · split
    · split <;> exact hlt
    · exact hlt
    · split <;> exact hlt

theorem callWork_settleControl {ok : Bool}
    (hact : call.settleControl cl ok = some (call', cl', block)) :
    callWork call' < callWork call := by
  obtain ⟨stage, queue, issued, failed, lost⟩ := call
  cases stage with
  | connecting | running i | fulfilled | rejected | setFailed i => cases hact
  | setting i | beginning i =>
    simp only [TransactionCall.settleControl] at hact
    split at hact <;>
    · cases hact
      exact Nat.add_lt_add_right (by simp [stagesLeft]) _
  | committing i =>
    simp only [TransactionCall.settleControl] at hact
    split at hact
    · split at hact <;>
      · cases hact
        exact Nat.add_lt_add_right (by simp [stagesLeft]) _
    · cases hact
      exact Nat.add_lt_add_right (by simp [stagesLeft]) _
  | rollingBack i =>
    simp only [TransactionCall.settleControl] at hact
    split at hact
    · cases hact
      exact Nat.add_lt_add_right (by simp [stagesLeft]) _
    · cases hact

theorem callWork_act {action : TransactionAction α} (hresponds : t.Responds (.act k action))
    (hact : call.act cl action = some (call', cl', block)) : callWork call' < callWork call := by
  cases action with
  | issue a => exact hresponds.elim
  | breaks executed => exact hresponds.elim
  | returns =>
    obtain ⟨stage, queue, issued, failed, lost⟩ := call
    cases stage with
    | running i =>
      cases hact
      exact Nat.add_lt_add_right (by simp [stagesLeft]) _
    | _ => cases hact
  | throws =>
    obtain ⟨stage, queue, issued, failed, lost⟩ := call
    cases stage with
    | running i =>
      cases hact
      exact Nat.add_lt_add_right (by simp [stagesLeft]) _
    | _ => cases hact
  | settle ok =>
    simp only [TransactionCall.act] at hact
    split at hact
    · rename_i a rest hqueue
      have hlt : callWork (call.settleStatement cl a rest ok).1 < callWork call :=
        callWork_settleStatement hqueue ok
      rwa [Option.some.inj hact] at hlt
    · exact callWork_settleControl hact

/-- **Step lemma.** Every response lowers the work. -/
theorem work_lt {e : TransactionEvent α} (hresponds : t.Responds e) (hstep : t.step e = some t') :
    t'.work < t.work := by
  have hset : ∀ {k : ℕ} {call call' : TransactionCall α}, t.calls[k]? = some call →
      callWork call' < callWork call →
      ((t.calls.set k call').map callWork).sum < (t.calls.map callWork).sum := by
    intro k call call' hget hlt
    have hsum := Lists.sum_map_set (b := call') callWork hget
    omega
  have hconnecting : ∀ {call : TransactionCall α} {stage : TransactionStage},
      call.stage = .connecting → stagesLeft stage < 6 →
      callWork { call with stage := stage } < callWork call := by
    intro call stage hconnecting hlt
    rw [callWork, callWork, hconnecting]
    exact Nat.add_lt_add_right hlt _
  cases e with
  | call => exact hresponds.elim
  | breaks i => exact hresponds.elim
  | handOut k i =>
    simp only [Transactions.step, Option.bind_eq_bind, Option.bind_eq_some_iff,
      Option.guard_eq_some'] at hstep
    obtain ⟨call, hget, cl, -, -, ⟨hstage, -⟩, hstep⟩ := hstep
    cases hstep
    exact hset hget (hconnecting hstage (by decide : (5 : ℕ) < 6))
  | openClient k =>
    simp only [Transactions.step, Option.bind_eq_bind, Option.bind_eq_some_iff,
      Option.guard_eq_some'] at hstep
    obtain ⟨call, hget, -, hstage, hstep⟩ := hstep
    cases hstep
    exact hset hget (hconnecting hstage (by decide : (5 : ℕ) < 6))
  | refuse k =>
    simp only [Transactions.step, Option.bind_eq_bind, Option.bind_eq_some_iff,
      Option.guard_eq_some'] at hstep
    obtain ⟨call, hget, -, hstage, hstep⟩ := hstep
    cases hstep
    exact hset hget (hconnecting hstage (by decide : (0 : ℕ) < 6))
  | act k action =>
    simp only [Transactions.step, Option.bind_eq_bind, Option.bind_eq_some_iff] at hstep
    obtain ⟨call, hget, i, -, cl, -, ⟨call', cl', block⟩, hact, hstep⟩ := hstep
    cases hstep
    exact hset hget (callWork_act hresponds hact)

end Transactions

end PostgresChat
