import PostgresChat.Migrate.System
import Mathlib.Algebra.Order.BigOperators.Group.Finset
import Mathlib.Data.Fintype.BigOperators

/-!
# Migrations run at once

The files that have been committed are always a first part of the list, each with its row, because
a run commits a file only from the place in the list the others have got to: its row is not there
yet. A run that another one overtakes is left behind, and ends with exit code 1 at the latest at its
INSERT. A run that stands at the first file not yet committed has nothing in its way, since the
files are runnable, so there is always a run that goes on to the end.
-/

namespace PostgresChat
namespace Migrate

open Execution

variable {N : ℕ} {files applied : List Migration} {s s' : State N} {i : Fin N}

/-! ## Places in the loop -/

/-- The loop is at the file number `p`, with a set `applied` that was read before. -/
def Loop.At (files : List Migration) (p : ℕ) (l : Loop) : Prop :=
  files.drop p = l.file :: l.todo ∧
    ∃ n ≤ p, l.applied = (files.take n).map Migration.version

variable {l : Loop} {p q m : ℕ}

theorem Loop.At.lt_length (h : l.At files p) : p < files.length := by
  by_contra hle
  have hnil := List.drop_eq_nil_of_le (not_lt.mp hle)
  rw [h.1] at hnil
  cases hnil

theorem Loop.At.unique (hp : l.At files p) (hq : l.At files q) : p = q := by
  have hlength := congrArg List.length (hp.1.trans hq.1.symm)
  rw [List.length_drop, List.length_drop] at hlength
  have := hp.lt_length
  have := hq.lt_length
  omega

theorem Loop.At.getElem? (h : l.At files p) : files[p]? = some l.file := by
  rw [← List.head?_drop, h.1, List.head?_cons]

theorem Loop.At.take_succ (h : l.At files p) : files.take (p + 1) = files.take p ++ [l.file] := by
  rw [List.take_add_one, h.getElem?, Option.toList_some]

theorem Loop.At.drop_succ (h : l.At files p) : files.drop (p + 1) = l.todo := by
  rw [← List.drop_drop, h.1, List.drop_one, List.tail_cons]

/-- Two runs at the same place are at the same file. -/
theorem Loop.At.file_eq {l' : Loop} (h : l.At files p) (h' : l'.At files p) : l.file = l'.file :=
  (List.cons.inj (h.1.symm.trans h'.1)).1

/-- The file a run is at is among the first `m`, when it is behind. -/
theorem Loop.At.mem_take (h : l.At files p) (hp : p < m) : l.file ∈ files.take m :=
  List.mem_of_getElem? (i := p) (by rw [List.getElem?_take_of_lt hp, h.getElem?])

/-- A version is found among the first `m` only from behind. -/
theorem Loop.At.lt_of_mem (hnodup : (files.map Migration.version).Nodup) (h : l.At files p)
    (hmem : l.file.version ∈ (files.take m).map Migration.version) : p < m := by
  obtain ⟨n, hn⟩ := List.mem_iff_getElem?.mp hmem
  rw [List.getElem?_map, List.getElem?_take] at hn
  split at hn
  next hlt =>
    have hp : (files.map Migration.version)[p]? = some l.file.version := by
      rw [List.getElem?_map, h.getElem?, Option.map_some]
    rw [← List.getElem?_map] at hn
    have hbound : p < (files.map Migration.version).length := by simpa using h.lt_length
    exact (List.getElem?_inj hbound hnodup).mp (hp.trans hn.symm) ▸ hlt
  next => cases hn

/-! ### The loop goes on -/

theorem loop_append {known : List JsString} {xs : List Migration}
    (h : ∀ f ∈ xs, f.version ∈ known) (ys : List Migration) :
    loop known (xs ++ ys) = loop known ys := by
  induction xs with
  | nil => rfl
  | cons f xs ih =>
    rw [List.forall_mem_cons] at h
    rw [List.cons_append, loop, List.contains_iff_mem.mpr h.1, if_pos rfl, ih h.2]

/-- The loop over the files from number `p` on stops at the next one, or is at its end. -/
theorem loop_drop (hnodup : (files.map Migration.version).Nodup) {n : ℕ} (hn : n ≤ p) :
    (files.length ≤ p ∧
      loop ((files.take n).map Migration.version) (files.drop p) = .finished 0) ∨
    ∃ l : Loop, l.At files p ∧
      loop ((files.take n).map Migration.version) (files.drop p) = .ready l := by
  cases hdrop : files.drop p with
  | nil => exact .inl ⟨List.drop_eq_nil_iff.mp hdrop, rfl⟩
  | cons file todo =>
    have hat : Loop.At files p ⟨(files.take n).map Migration.version, file, todo⟩ :=
      ⟨hdrop, n, hn, rfl⟩
    refine .inr ⟨_, hat, ?_⟩
    rw [loop, if_neg]
    intro hmem
    exact absurd (hat.lt_of_mem hnodup (List.contains_iff_mem.mp hmem)) (not_lt.mpr hn)

/-- Behind the file number `p`. -/
theorem Loop.At.next (hnodup : (files.map Migration.version).Nodup) (h : l.At files p) :
    (files.length ≤ p + 1 ∧ loop l.applied l.todo = .finished 0) ∨
    ∃ l' : Loop, l'.At files (p + 1) ∧ loop l.applied l.todo = .ready l' := by
  obtain ⟨n, hn, happlied⟩ := h.2
  rw [happlied, ← h.drop_succ]
  exact loop_drop hnodup (Nat.le_succ_of_le hn)

/-- After the SELECT. -/
theorem loop_select (hnodup : (files.map Migration.version).Nodup) (m : ℕ) :
    (files.length ≤ m ∧ loop ((files.take m).map Migration.version) files = .finished 0) ∨
    ∃ l : Loop, l.At files m ∧
      loop ((files.take m).map Migration.version) files = .ready l := by
  have hskip : loop ((files.take m).map Migration.version) (files.take m ++ files.drop m) =
      loop ((files.take m).map Migration.version) (files.drop m) :=
    loop_append (fun f hf ↦ List.mem_map_of_mem hf) _
  rw [List.take_append_drop] at hskip
  rw [hskip]
  exact loop_drop hnodup le_rfl

/-! ## The invariant -/

/-- The transaction of a run at the file number `p`, where `relations` exist. -/
structure Transaction.Open (files : List Migration) (relations : List JsString) (p : ℕ)
    (t : Transaction) : Prop where
  place : t.toLoop.At files p
  seen : p ≤ t.seen
  text : t.ran ++ t.rest = t.file.sql
  made : ∀ object ∈ creates t.ran, object ∈ relations ∨ object ∈ t.created
  own : ∀ object ∈ t.created, object ∈ creates t.ran

/-- What the transaction waits to create is in no file before. -/
def Transaction.Waits (files : List Migration) (p : ℕ) (t : Transaction) : Prop :=
  ∀ object b rest, t.rest = .create object b :: rest →
    object ≠ tracking ∧ object ∉ createdBy (files.take p) ∧ object ∉ t.created

/-- Where a run can stand when the first `m` files have been committed, the first `k` of them
beforehand. -/
def Stage.Stands (files : List Migration) (k m : ℕ) (relations : List JsString) : Stage → Prop
  | .connected | .tracked => True
  | .ready l => ∃ p, k ≤ p ∧ p ≤ m ∧ l.At files p
  | .executing waited t => ∃ p, k ≤ p ∧ p ≤ m ∧ t.Open files relations p ∧
      (waited = true → t.Waits files p)
  | .inserted t => t.Open files relations m ∧ t.rest = []
  | .failed => k < m
  | .finished c => c = 0 ∧ files.length ≤ m ∨ c = 1 ∧ k < m

/-- The run has seen all that is committed. -/
def Stage.Ahead (files : List Migration) (m : ℕ) : Stage → Prop
  | .ready l => l.At files m
  | .executing _ t | .inserted t => t.toLoop.At files m
  | .finished c => c = 0
  | _ => False

/-- The runs, their transactions and the tables agree on how far the files have been applied. -/
structure Inv (files : List Migration) (k : ℕ) (s : State N) : Prop where
  /-- A first part of the list has been committed. -/
  committed : s.committed <+: files
  /-- Each with its row. -/
  rows : s.rows = s.committed.map Migration.version
  lower : k ≤ s.committed.length
  relations : ∀ object ∈ s.relations, object = tracking ∨ object ∈ createdBy s.committed
  exist : ∀ object ∈ createdBy s.committed, object ∈ s.relations
  tracked : ∀ i, s.runs i ≠ .connected → tracking ∈ s.relations
  stands : ∀ i, (s.runs i).Stands files k s.committed.length s.relations
  /-- The row of a file is inserted by one transaction at a time. -/
  alone : ∀ i j t t', s.runs i = .inserted t → s.runs j = .inserted t' → i = j
  /-- Someone goes on. -/
  ahead : s.committed.length = k ∨ ∃ i, (s.runs i).Ahead files s.committed.length

theorem createdBy_append (fs gs : List Migration) :
    createdBy (fs ++ gs) = createdBy fs ++ createdBy gs := List.flatMap_append

theorem createdBy_take_mono (h : p ≤ m) {object : JsString}
    (hmem : object ∈ createdBy (files.take p)) : object ∈ createdBy (files.take m) := by
  rw [← Nat.add_sub_cancel' h, List.take_add, createdBy_append]
  exact List.mem_append_left _ hmem

theorem mem_createdBy {f : Migration} {fs : List Migration} {object : JsString} (hf : f ∈ fs)
    (h : object ∈ creates f.sql) : object ∈ createdBy fs := List.mem_flatMap.mpr ⟨f, hf, h⟩

theorem Transaction.Open.mono {t : Transaction} {relations relations' : List JsString}
    (h : t.Open files relations p) (hsub : ∀ object ∈ relations, object ∈ relations') :
    t.Open files relations' p where
  place := h.place
  seen := h.seen
  text := h.text
  made object hobject := (h.made object hobject).imp_left (hsub object)
  own := h.own

variable {k : ℕ}

/-- A COMMIT leaves every run where it is, one that has inserted its own row apart. -/
theorem Stage.Stands.mono {stage : Stage} {m' : ℕ} {relations relations' : List JsString}
    (h : stage.Stands files k m relations) (hm : m ≤ m')
    (hsub : ∀ object ∈ relations, object ∈ relations')
    (hinserted : m = m' ∨ ∀ t, stage ≠ .inserted t) : stage.Stands files k m' relations' := by
  cases stage with
  | connected => trivial
  | tracked => trivial
  | ready l =>
    obtain ⟨p, hk, hp, hat⟩ := h
    exact ⟨p, hk, hp.trans hm, hat⟩
  | executing waited t =>
    obtain ⟨p, hk, hp, hopen, hwaits⟩ := h
    exact ⟨p, hk, hp.trans hm, hopen.mono hsub, hwaits⟩
  | inserted t =>
    obtain rfl := hinserted.resolve_right fun hnot ↦ hnot t rfl
    exact ⟨h.1.mono hsub, h.2⟩
  | failed => exact lt_of_lt_of_le h hm
  | finished c => exact h.imp (And.imp_right hm.trans') (And.imp_right fun hk ↦ hk.trans_le hm)

namespace Inv

theorem committed_eq (h : Inv files k s) : s.committed = files.take s.committed.length :=
  List.prefix_iff_eq_take.mp h.committed

/-- A run at a file whose row is not there is at the first file not yet committed. -/
theorem eq_of_not_mem (h : Inv files k s) {l : Loop} (hat : l.At files p)
    (hle : p ≤ s.committed.length) (hnew : l.file.version ∉ s.rows) : p = s.committed.length := by
  refine hle.antisymm (not_lt.mp fun hlt ↦ hnew ?_)
  rw [h.rows, h.committed_eq]
  exact List.mem_map_of_mem (hat.mem_take hlt)

/-- What the files behind create exists. -/
theorem exists_of_lt (h : Inv files k s) {l : Loop} (hat : l.At files p)
    (hlt : p < s.committed.length) {object : JsString} (hobject : object ∈ creates l.file.sql) :
    object ∈ s.relations := by
  refine h.exist object ?_
  rw [h.committed_eq]
  exact mem_createdBy (hat.mem_take hlt) hobject

/-- Another stage for one run. -/
theorem put (h : Inv files k s) {stage : Stage}
    (htracked : tracking ∈ s.relations)
    (hstands : stage.Stands files k s.committed.length s.relations)
    (halone : ∀ t, stage = .inserted t → ∀ j t', s.runs j ≠ .inserted t')
    (hahead : (s.runs i).Ahead files s.committed.length →
      stage.Ahead files s.committed.length) : Inv files k (s.put i stage) where
  committed := h.committed
  rows := h.rows
  lower := h.lower
  relations := h.relations
  exist := h.exist
  tracked _ _ := htracked
  stands j := by
    rcases eq_or_ne j i with rfl | hj
    · rwa [State.put_self]
    · rw [State.put_of_ne hj]
      exact h.stands j
  alone j j' t t' hj hj' := by
    rcases eq_or_ne i j with rfl | hji <;> rcases eq_or_ne i j' with rfl | hji'
    · rfl
    · rw [State.put_self] at hj
      rw [State.put_of_ne hji'.symm] at hj'
      exact absurd hj' (halone t hj j' t')
    · rw [State.put_self] at hj'
      rw [State.put_of_ne hji.symm] at hj
      exact absurd hj (halone t' hj' j t)
    · rw [State.put_of_ne hji.symm] at hj
      rw [State.put_of_ne hji'.symm] at hj'
      exact h.alone j j' t t' hj hj'
  ahead := by
    refine h.ahead.imp_right fun ⟨j, hj⟩ ↦ ⟨j, ?_⟩
    rcases eq_or_ne j i with rfl | hji
    · rw [State.put_self]
      exact hahead hj
    · rw [State.put_of_ne hji]
      exact hj

/-- The tracking table. -/
theorem track (h : Inv files k s) : Inv files k s.track ∧ tracking ∈ s.track.relations := by
  have hsub : ∀ object ∈ s.relations, object ∈ s.track.relations := by
    intro object hobject
    rw [State.track]
    split
    · exact hobject
    · exact List.mem_append_left _ hobject
  have htracking : tracking ∈ s.track.relations := by
    rw [State.track]
    split
    next hmem => exact List.contains_iff_mem.mp hmem
    next => exact List.mem_append_right _ (List.mem_singleton_self _)
  refine ⟨⟨h.committed, h.rows, h.lower, fun object hobject ↦ ?_, fun object hobject ↦
    hsub object (h.exist object hobject), fun _ _ ↦ htracking, fun j ↦ ?_, h.alone, h.ahead⟩,
    htracking⟩
  · rw [State.track] at hobject
    split at hobject
    · exact h.relations object hobject
    · rcases List.mem_append.mp hobject with hold | hnew
      · exact h.relations object hold
      · exact .inl (List.mem_singleton.mp hnew)
  · exact (h.stands j).mono le_rfl hsub (.inl rfl)

/-- Nothing that is committed is in the way of a run that has seen all of it. -/
theorem not_exists (hfiles : Runnable files) (h : Inv files k s) {waited : Bool} {t : Transaction}
    (hopen : t.Open files s.relations p) (hwaits : waited = true → t.Waits files p)
    {object : JsString} {b : Bool} {rest : List Statement}
    (hnext : t.rest = .create object b :: rest) (hplain : b = false ∨ waited = true)
    (hold : object ∈ s.relations ∨ object ∈ t.created) : p ≠ s.committed.length := by
  rintro rfl
  have hknown : object ∈ tracking :: createdBy (files.take s.committed.length) ∨
      object ∈ t.created := by
    refine hold.imp_left fun hmem ↦ ?_
    rw [← h.committed_eq, List.mem_cons]
    exact h.relations object hmem
  rcases hplain with rfl | hwaited
  · have hgoes := hfiles.2
    rw [← List.take_append_drop s.committed.length files, hopen.place.1, List.flatMap_append,
      List.flatMap_cons, ← hopen.text, hnext, List.append_assoc, ← List.append_assoc,
      List.cons_append] at hgoes
    obtain ⟨htracking, hbefore⟩ := not_known_of_goesThrough hgoes
    rw [creates_append, creates_flatMap, List.mem_append, not_or] at hbefore
    rw [List.mem_singleton] at htracking
    rcases hknown with hknown | hown
    · exact (List.mem_cons.mp hknown).elim htracking hbefore.1
    · exact hbefore.2 (hopen.own object hown)
  · obtain ⟨htracking, hbefore, hown⟩ := hwaits hwaited object b rest hnext
    rcases hknown with hknown | hmem
    · exact (List.mem_cons.mp hknown).elim htracking hbefore
    · exact hown hmem

/-! ### Each step keeps it -/

/-- A statement of a transaction. -/
theorem execute (hfiles : Runnable files) (h : Inv files k s) {waited : Bool} {t : Transaction}
    {next : Stage} (hi : s.runs i = .executing waited t) (hnext : Executed s waited t next) :
    Inv files k (s.put i next) := by
  have htracked := h.tracked i (by rw [hi]; exact Stage.noConfusion)
  obtain ⟨p, hk, hp, hopen, hwaits⟩ : (Stage.executing waited t).Stands files k
    s.committed.length s.relations := hi ▸ h.stands i
  have hahead : (s.runs i).Ahead files s.committed.length → p = s.committed.length := by
    rw [hi]
    exact fun hat ↦ hopen.place.unique hat
  cases hnext with
  | passed statement rest hrest hold =>
    refine h.put htracked ⟨p, hk, hp, ⟨hopen.place, hopen.seen, ?_, ?_, ?_⟩, nofun⟩ nofun
      fun hat ↦ ?_
    · rw [List.append_assoc, List.singleton_append, ← hrest, hopen.text]
    · rw [creates_append, List.forall_mem_append]
      exact ⟨hopen.made, hold⟩
    · intro object hobject
      rw [creates_append]
      exact List.mem_append_left _ (hopen.own object hobject)
    · exact hahead hat ▸ hopen.place
  | made object b rest hrest =>
    refine h.put htracked ⟨p, hk, hp, ⟨hopen.place, hopen.seen, ?_, ?_, ?_⟩, nofun⟩ nofun
      fun hat ↦ ?_
    · rw [List.append_assoc, List.singleton_append, ← hrest, hopen.text]
    · rw [creates_append, List.forall_mem_append, creates_create, creates_nil,
        List.forall_mem_singleton]
      refine ⟨fun name hname ↦ (hopen.made name hname).imp_right (List.mem_append_left _), .inr ?_⟩
      exact List.mem_append_right _ (List.mem_singleton_self _)
    · intro name hname
      rw [creates_append, List.mem_append]
      exact (List.mem_append.mp hname).imp_left (hopen.own name)
    · exact hahead hat ▸ hopen.place
  | waits _ hnew =>
    refine h.put htracked ⟨p, hk, hp, hopen, fun _ object b rest hrest ↦ ?_⟩ nofun fun hat ↦
      hahead hat ▸ hopen.place
    obtain ⟨hmissing, hown⟩ := hnew object b rest hrest
    refine ⟨fun htracking ↦ hmissing (htracking ▸ htracked), fun hbefore ↦ ?_, hown⟩
    refine hmissing (h.exist object ?_)
    rw [h.committed_eq]
    exact createdBy_take_mono hp hbefore
  | clashes object b rest hrest hold hplain =>
    have hne := h.not_exists hfiles hopen hwaits hrest hplain hold
    exact h.put htracked (hk.trans_lt (hp.lt_of_ne hne)) nofun fun hat ↦ absurd (hahead hat) hne
  | duplicate hrest hold =>
    rw [h.rows, h.committed_eq] at hold
    have hlt := hopen.place.lt_of_mem hfiles.1 hold
    exact h.put htracked (hk.trans_lt hlt) nofun fun hat ↦ absurd (hahead hat) hlt.ne
  | inserted hrest hnew hfree =>
    obtain rfl := h.eq_of_not_mem hopen.place hp hnew
    refine h.put htracked ⟨hopen, hrest⟩ (fun t' ht' j u hj ↦ ?_) fun _ ↦ hopen.place
    have hplace : (Stage.inserted u).Stands files k s.committed.length s.relations :=
      hj ▸ h.stands j
    refine hfree j u hj (congrArg Migration.version ?_)
    exact hplace.1.place.file_eq hopen.place

/-- A COMMIT. -/
theorem commit (hfiles : Runnable files) (h : Inv files k s) {t : Transaction}
    (hi : s.runs i = .inserted t) : Inv files k (s.commit i t) := by
  obtain ⟨hopen, hrest⟩ : (Stage.inserted t).Stands files k s.committed.length s.relations :=
    hi ▸ h.stands i
  have hran : t.ran = t.file.sql := by rw [← hopen.text, hrest, List.append_nil]
  have hcommitted : (s.commit i t).committed = files.take (s.committed.length + 1) := by
    rw [State.commit, hopen.place.take_succ, ← h.committed_eq, hran]
  have hlength := s.length_commit i t
  have hsub : ∀ object ∈ s.relations, object ∈ (s.commit i t).relations :=
    fun object ↦ List.mem_append_left t.created
  have hcreated : createdBy (s.commit i t).committed =
      createdBy s.committed ++ creates t.ran := by
    rw [State.commit, createdBy_append, createdBy, createdBy, List.flatMap_singleton]
  have hnext := hopen.place.next hfiles.1
  constructor
  · rw [hcommitted]
    exact List.take_prefix _ _
  · rw [State.commit, List.map_append, ← h.rows, List.map_singleton]
  · rw [hlength]
    exact Nat.le_succ_of_le h.lower
  · intro object hobject
    rw [hcreated]
    rcases List.mem_append.mp hobject with hold | hnew
    · exact (h.relations object hold).imp_right (List.mem_append_left _)
    · exact .inr (List.mem_append_right _ (hopen.own object hnew))
  · intro object hobject
    rw [hcreated] at hobject
    rcases List.mem_append.mp hobject with hold | hnew
    · exact hsub object (h.exist object hold)
    · exact List.mem_append.mpr (hopen.made object hnew)
  · exact fun _ _ ↦ hsub tracking (h.tracked i (by rw [hi]; exact Stage.noConfusion))
  · intro j
    rw [hlength]
    rcases eq_or_ne i j with rfl | hj
    · rw [s.commit_self]
      rcases hnext with ⟨hend, hloop⟩ | ⟨l, hat, hloop⟩ <;> rw [hloop]
      · exact .inl ⟨rfl, hend⟩
      · exact ⟨_, Nat.le_succ_of_le h.lower, le_rfl, hat⟩
    · rw [State.commit_of_ne hj.symm]
      refine (h.stands j).mono (Nat.le_succ _) hsub (.inr fun t' hj' ↦ ?_)
      exact hj (h.alone i j t t' hi hj')
  · intro j j' u u' hj hj'
    have hne : ∀ {j u}, (s.commit i t).runs j = .inserted u → j ≠ i := by
      rintro j u hu rfl
      rw [s.commit_self] at hu
      rcases hnext with ⟨-, hloop⟩ | ⟨l, -, hloop⟩ <;> rw [hloop] at hu <;> cases hu
    rw [State.commit_of_ne (hne hj)] at hj
    rw [State.commit_of_ne (hne hj')] at hj'
    exact h.alone j j' u u' hj hj'
  · refine .inr ⟨i, ?_⟩
    rw [s.commit_self, hlength]
    rcases hnext with ⟨-, hloop⟩ | ⟨l, hat, hloop⟩ <;> rw [hloop]
    · rfl
    · exact hat

theorem step (hfiles : Runnable files) (h : Inv files k s) {e : Event N}
    (hstep : step files s e = some s') : Inv files k s' := by
  cases stepped_of_step hstep with
  | track i hi =>
    refine h.track.1.put h.track.2 trivial nofun fun hat ↦ ?_
    change (s.runs i).Ahead files _ at hat
    rw [hi] at hat
    exact hat
  | select i hi =>
    have htracked := h.tracked i (by rw [hi]; exact Stage.noConfusion)
    have hstands := h.stands i
    have hloop := loop_select hfiles.1 s.committed.length
    rw [← h.committed_eq, ← h.rows] at hloop
    rcases hloop with ⟨hend, hloop⟩ | ⟨l, hat, hloop⟩ <;> rw [hloop]
    · exact h.put htracked (.inl ⟨rfl, hend⟩) nofun fun _ ↦ rfl
    · exact h.put htracked ⟨_, h.lower, le_rfl, hat⟩ nofun fun _ ↦ hat
  | begin i l hi =>
    obtain ⟨p, hk, hp, hat⟩ : (Stage.ready l).Stands files k s.committed.length s.relations :=
      hi ▸ h.stands i
    refine h.put (h.tracked i (by rw [hi]; exact Stage.noConfusion))
      ⟨p, hk, hp, ⟨hat, hp, rfl, nofun, nofun⟩, nofun⟩ nofun fun hahead ↦ ?_
    rw [hi] at hahead
    exact hahead
  | execute i waited t next hi hnext => exact h.execute hfiles hi hnext
  | commit i t hi => exact h.commit hfiles hi
  | rollback i hi =>
    have hstands : Stage.failed.Stands files k s.committed.length s.relations := hi ▸ h.stands i
    refine h.put (h.tracked i (by rw [hi]; exact Stage.noConfusion)) (.inr ⟨rfl, hstands⟩) nofun
      fun hahead ↦ ?_
    rw [hi] at hahead
    exact hahead.elim
  | conflict i waited t hi hlate =>
    obtain ⟨p, hk, hp, hopen, -⟩ : (Stage.executing waited t).Stands files k
      s.committed.length s.relations := hi ▸ h.stands i
    have hlt : p < s.committed.length := hopen.seen.trans_lt hlate
    refine h.put (h.tracked i (by rw [hi]; exact Stage.noConfusion)) (hk.trans_lt hlt) nofun
      fun hahead ↦ ?_
    rw [hi] at hahead
    exact absurd (hopen.place.unique hahead) hlt.ne

theorem run (hfiles : Runnable files) (h : Inv files k s) {es : List (Event N)}
    (hrun : Execution.run (Migrate.step files) s es = some s') : Inv files k s' :=
  run_invariant (Inv files k) (fun hs ↦ hs.step hfiles) h hrun

/-- Where the first files have been applied and all runs are about to begin. -/
theorem start (happlied : applied <+: files) :
    Inv files applied.length (start N applied) where
  committed := happlied
  rows := rfl
  lower := le_rfl
  relations _ := .inr
  exist _ := id
  tracked _ h := absurd rfl h
  stands _ := trivial
  alone _ _ _ _ h := nomatch h
  ahead := .inl rfl

end Inv

/-! ## Exit codes -/

/-- The run has read the applied set and has not ended. -/
def Stage.looping : Stage → Bool
  | .connected | .tracked | .finished _ => false
  | _ => true

/-- Another run commits a file while the run `i` is between its SELECT and its end. -/
def Overtaken (i : Fin N) (s : State N) : Event N → Prop
  | .exec j => j ≠ i ∧ (∃ t, s.runs j = .inserted t) ∧ (s.runs i).looping = true
  | .conflict _ => False

/-- The run has read the applied set and something has been committed since. -/
def Stage.Behind (files : List Migration) (m : ℕ) (stage : Stage) : Prop :=
  stage ≠ .connected ∧ stage ≠ .tracked ∧ ¬ stage.Ahead files m

section Behind

variable {k : ℕ} {e : Event N}

/-- A statement of a transaction fails only behind. -/
theorem ahead_iff_of_executed (hfiles : Runnable files) (h : Inv files k s) {waited : Bool}
    {t : Transaction} {next : Stage} (hi : s.runs i = .executing waited t)
    (hnext : Executed s waited t next) :
    next.Ahead files s.committed.length ↔ t.toLoop.At files s.committed.length := by
  obtain ⟨p, hk, hp, hopen, hwaits⟩ : (Stage.executing waited t).Stands files k
    s.committed.length s.relations := hi ▸ h.stands i
  cases hnext with
  | passed => exact Iff.rfl
  | made => exact Iff.rfl
  | waits => exact Iff.rfl
  | inserted => exact Iff.rfl
  | clashes object b rest hrest hold hplain =>
    have hne := h.not_exists hfiles hopen hwaits hrest hplain hold
    exact iff_of_false id fun hat ↦ hne (hopen.place.unique hat)
  | duplicate hrest hold =>
    rw [h.rows, h.committed_eq] at hold
    have hlt := hopen.place.lt_of_mem hfiles.1 hold
    exact iff_of_false id fun hat ↦ hlt.ne (hopen.place.unique hat)

/-- A run does not fall behind by a step of its own. -/
theorem behind_iff_of_own (hfiles : Runnable files) (h : Inv files k s)
    (hstep : step files s e = some s') (hi : e.of = i) :
    (s'.runs i).Behind files s'.committed.length ↔
      (s.runs i).Behind files s.committed.length := by
  have hselect := loop_select hfiles.1 s.committed.length
  rw [← h.committed_eq, ← h.rows] at hselect
  subst hi
  cases stepped_of_step hstep with
  | track i hi => simp [Event.of, Stage.Behind, hi]
  | select i hi =>
    rw [Event.of, State.put_self, hi]
    refine iff_of_false (fun hbehind ↦ hbehind.2.2 ?_) fun hbehind ↦ hbehind.2.1 rfl
    rcases hselect with ⟨-, hloop⟩ | ⟨l, hat, hloop⟩ <;> rw [hloop]
    · rfl
    · exact hat
  | begin i l hi => simp [Event.of, Stage.Behind, Stage.Ahead, hi, State.begin, State.put]
  | execute i waited t next hi hnext =>
    have hstage : next ≠ .connected ∧ next ≠ .tracked := by
      cases hnext <;> exact ⟨Stage.noConfusion, Stage.noConfusion⟩
    rw [Event.of, State.put_self, hi]
    constructor
    · rintro ⟨-, -, hnot⟩
      refine ⟨Stage.noConfusion, Stage.noConfusion, ?_⟩
      exact mt (ahead_iff_of_executed hfiles h hi hnext).mpr hnot
    · rintro ⟨-, -, hnot⟩
      exact ⟨hstage.1, hstage.2, mt (ahead_iff_of_executed hfiles h hi hnext).mp hnot⟩
  | commit i t hi =>
    obtain ⟨hopen, -⟩ : (Stage.inserted t).Stands files k s.committed.length s.relations :=
      hi ▸ h.stands i
    rw [Event.of, hi]
    refine iff_of_false (fun hbehind ↦ hbehind.2.2 ?_) fun hbehind ↦ hbehind.2.2 hopen.place
    rw [State.commit_self, State.length_commit]
    rcases hopen.place.next hfiles.1 with ⟨-, hloop⟩ | ⟨l, hat, hloop⟩ <;> rw [hloop]
    · rfl
    · exact hat
  | rollback i hi => simp [Event.of, Stage.Behind, Stage.Ahead, hi]
  | conflict i waited t hi hlate =>
    obtain ⟨p, hk, hp, hopen, -⟩ : (Stage.executing waited t).Stands files k
      s.committed.length s.relations := hi ▸ h.stands i
    rw [Event.of, State.put_self, hi]
    refine iff_of_true ⟨Stage.noConfusion, Stage.noConfusion, id⟩
      ⟨Stage.noConfusion, Stage.noConfusion, fun hat ↦ ?_⟩
    exact (hopen.seen.trans_lt hlate).ne (hopen.place.unique hat)

/-- A run at a file falls behind when another one commits. -/
theorem behind_succ_iff {stage : Stage} {relations : List JsString}
    (h : stage.Stands files k m relations) :
    stage.Behind files (m + 1) ↔ stage.Behind files m ∨ stage.looping = true := by
  have hnot : ∀ {l : Loop} {p}, p ≤ m → l.At files p → ¬ l.At files (m + 1) :=
    fun hp hat hnext ↦ absurd (hat.unique hnext) (Nat.lt_succ_of_le hp).ne
  cases stage with
  | connected => simp [Stage.Behind, Stage.looping]
  | tracked => simp [Stage.Behind, Stage.looping]
  | ready l =>
    obtain ⟨p, -, hp, hat⟩ := h
    exact iff_of_true ⟨Stage.noConfusion, Stage.noConfusion, hnot hp hat⟩ (.inr rfl)
  | executing waited t =>
    obtain ⟨p, -, hp, hopen, -⟩ := h
    exact iff_of_true ⟨Stage.noConfusion, Stage.noConfusion, hnot hp hopen.place⟩ (.inr rfl)
  | inserted t =>
    exact iff_of_true ⟨Stage.noConfusion, Stage.noConfusion, hnot le_rfl h.1.place⟩ (.inr rfl)
  | failed => exact iff_of_true ⟨Stage.noConfusion, Stage.noConfusion, id⟩ (.inr rfl)
  | finished c => simp [Stage.Behind, Stage.looping, Stage.Ahead]

/-- A run falls behind exactly when it is overtaken. -/
theorem behind_iff_of_step (hfiles : Runnable files) (h : Inv files k s)
    (hstep : step files s e = some s') :
    (s'.runs i).Behind files s'.committed.length ↔
      (s.runs i).Behind files s.committed.length ∨ Overtaken i s e := by
  by_cases hi : e.of = i
  · rw [behind_iff_of_own hfiles h hstep hi]
    refine (or_iff_left fun hovertaken ↦ ?_).symm
    cases e with
    | exec j => exact hovertaken.1 hi
    | conflict j => exact hovertaken
  · rcases (stepped_of_step hstep).commit_or with ⟨j, t, rfl, hj, rfl⟩ | ⟨hsame, hnot, hother⟩
    · have hne : i ≠ j := Ne.symm hi
      rw [State.commit_of_ne hne, State.length_commit, behind_succ_iff (h.stands i)]
      refine or_congr_right ⟨fun hlooping ↦ ⟨hi, ⟨t, hj⟩, hlooping⟩, fun hovertaken ↦ ?_⟩
      exact hovertaken.2.2
    · rw [hsame, hother i (Ne.symm hi)]
      refine (or_iff_left fun hovertaken ↦ ?_).symm
      cases e with
      | exec j =>
        obtain ⟨-, ⟨t, hj⟩, -⟩ := hovertaken
        exact hnot t hj
      | conflict j => exact hovertaken

end Behind

/-! ## Every run ends -/

/-- The most steps the files can take. -/
def costs : List Migration → ℕ
  | [] => 0
  | f :: files => 2 * f.sql.length + 5 + costs files

/-- The most steps a run can still take: each statement is sent, and may wait. -/
def Stage.left (files : List Migration) : Stage → ℕ
  | .connected => costs files + 2
  | .tracked => costs files + 1
  | .ready l => 2 * l.file.sql.length + 5 + costs l.todo
  | .executing waited t => 2 * t.rest.length + (if waited then 3 else 4) + costs t.todo
  | .inserted t => 2 + costs t.todo
  | .failed => 1
  | .finished _ => 0

/-- The most steps all runs can still take. -/
def State.left (files : List Migration) (s : State N) : ℕ := ∑ i, (s.runs i).left files

theorem left_loop_le (known : List JsString) (todo : List Migration) :
    (loop known todo).left files ≤ costs todo := by
  induction todo with
  | nil => exact le_rfl
  | cons f todo ih =>
    rw [loop, costs]
    split
    · omega
    · exact le_rfl

theorem left_of_executed {waited : Bool} {t : Transaction} {next : Stage}
    (h : Executed s waited t next) :
    next.left files < (Stage.executing waited t).left files := by
  have hwaited : 3 ≤ if waited then 3 else 4 := by split <;> decide
  cases h with
  | passed statement rest hrest =>
    simp only [Stage.left, hrest, List.length_cons, Bool.false_eq_true, if_false]
    omega
  | made object b rest hrest =>
    simp only [Stage.left, hrest, List.length_cons, Bool.false_eq_true, if_false]
    omega
  | waits hfirst =>
    rw [Stage.left, Stage.left, hfirst]
    simp
  | clashes => simp only [Stage.left]; omega
  | duplicate => simp only [Stage.left]; omega
  | inserted => simp only [Stage.left]; omega

/-- A step brings its run nearer to the end and leaves the others where they are. -/
theorem left_of_step {e : Event N} (h : step files s e = some s') :
    (s'.runs e.of).left files < (s.runs e.of).left files ∧
      ∀ j, j ≠ e.of → s'.runs j = s.runs j := by
  cases stepped_of_step h with
  | track i hi =>
    refine ⟨?_, fun j hj ↦ State.put_of_ne hj _⟩
    rw [Event.of, State.put_self, hi]
    exact Nat.lt_succ_self _
  | select i hi =>
    refine ⟨?_, fun j hj ↦ State.put_of_ne hj _⟩
    rw [Event.of, State.put_self, hi]
    exact Nat.lt_succ_of_le (left_loop_le _ _)
  | begin i l hi =>
    refine ⟨?_, fun j hj ↦ State.put_of_ne hj _⟩
    rw [Event.of, State.put_self, hi]
    simp only [Stage.left, State.begin, Bool.false_eq_true, if_false]
    omega
  | execute i waited t next hi hnext =>
    refine ⟨?_, fun j hj ↦ State.put_of_ne hj _⟩
    rw [Event.of, State.put_self, hi]
    exact left_of_executed hnext
  | commit i t hi =>
    refine ⟨?_, fun j hj ↦ State.commit_of_ne hj _⟩
    rw [Event.of, State.commit_self, hi]
    exact (left_loop_le _ _).trans_lt (Nat.lt_add_of_pos_left Nat.two_pos)
  | rollback i hi =>
    refine ⟨?_, fun j hj ↦ State.put_of_ne hj _⟩
    rw [Event.of, State.put_self, hi]
    exact Nat.one_pos
  | conflict i waited t hi =>
    refine ⟨?_, fun j hj ↦ State.put_of_ne hj _⟩
    rw [Event.of, State.put_self, hi, Stage.left, Stage.left]
    split <;> omega

theorem left_lt_of_step {e : Event N} (h : step files s e = some s') :
    s'.left files < s.left files := by
  obtain ⟨hlt, hother⟩ := left_of_step h
  refine Finset.sum_lt_sum (fun j _ ↦ ?_) ⟨e.of, Finset.mem_univ _, hlt⟩
  rcases eq_or_ne j e.of with rfl | hj
  · exact hlt.le
  · rw [hother j hj]

theorem left_start (N : ℕ) (applied : List Migration) :
    (start N applied).left files = N * (costs files + 2) := by
  change ∑ _ : Fin N, (costs files + 2) = _
  rw [Finset.sum_const, Finset.card_univ, Fintype.card_fin]
  rfl

/-- No interleaving goes on for ever. -/
theorem length_le_left {es : List (Event N)} (h : run (step files) s es = some s') :
    es.length ≤ s.left files := by
  induction es generalizing s with
  | nil => exact Nat.zero_le _
  | cons e es ih =>
    obtain ⟨u, hu, hrest⟩ := run_cons_eq_some.mp h
    exact Nat.succ_le_of_lt ((ih hrest).trans_lt (left_lt_of_step hu))

/-- The process has ended. -/
def Stage.ended : Stage → Bool
  | .finished _ => true
  | _ => false

/-- A run that has not ended and cannot step waits for an object of an open transaction. -/
theorem exists_creating_of_stuck (hstuck : ∀ e, step files s e = none) {i : Fin N}
    (hi : (s.runs i).ended = false) :
    ∃ waited t object b rest, s.runs i = .executing waited t ∧
      t.rest = .create object b :: rest ∧ object ∉ s.relations ∧ object ∉ t.created ∧
      ∃ j, object ∈ (s.runs j).created := by
  have hnone : ∀ j t, s.runs j ≠ .inserted t := by
    intro j t hj
    have hstep := hstuck (.exec j)
    simp only [step, hj, reduceCtorEq] at hstep
  have hstep := hstuck (.exec i)
  cases hstage : s.runs i with
  | executing waited t =>
    simp only [step, hstage, Option.map_eq_none_iff] at hstep
    rcases of_execute_eq_none hstep with ⟨object, b, rest, hrest⟩ | ⟨j, t', hj⟩
    · exact ⟨waited, t, object, b, rest, rfl, hrest⟩
    · exact absurd hj (hnone j t')
  | finished c => simp only [hstage, Stage.ended, reduceCtorEq] at hi
  | _ => simp only [step, hstage, reduceCtorEq] at hstep

/-- A transaction waits for one that has executed more of the same file. -/
theorem rest_lt_of_creating {k : ℕ} (h : Inv files k s) {i j : Fin N} {waited waited' b : Bool}
    {t u : Transaction} {object : JsString} {rest : List Statement}
    (hi : s.runs i = .executing waited t) (hj : s.runs j = .executing waited' u)
    (hrest : t.rest = .create object b :: rest) (hmissing : object ∉ s.relations)
    (hown : object ∉ t.created) (hcreated : object ∈ u.created) :
    u.rest.length < t.rest.length := by
  obtain ⟨p, -, hp, hopen, -⟩ : (Stage.executing waited t).Stands files k
    s.committed.length s.relations := hi ▸ h.stands i
  obtain ⟨q, -, hq, hopen', -⟩ : (Stage.executing waited' u).Stands files k
    s.committed.length s.relations := hj ▸ h.stands j
  have hran : object ∈ creates u.ran := hopen'.own object hcreated
  -- both are at the first file not yet committed, as what the files before create exists
  obtain rfl : p = s.committed.length := by
    refine hp.antisymm (not_lt.mp fun hlt ↦ hmissing (h.exists_of_lt hopen.place hlt ?_))
    rw [← hopen.text, hrest, creates_append, creates_create]
    exact List.mem_append_right _ List.mem_cons_self
  obtain rfl : q = s.committed.length := by
    refine hq.antisymm (not_lt.mp fun hlt ↦ hmissing (h.exists_of_lt hopen'.place hlt ?_))
    rw [← hopen'.text, creates_append]
    exact List.mem_append_left _ hran
  have htext : u.ran ++ u.rest = t.ran ++ t.rest := by
    rw [hopen.text, hopen'.text, hopen.place.file_eq hopen'.place]
  by_contra hle
  -- otherwise the waiting run would have executed the statement itself
  have hlength := congrArg List.length htext
  rw [List.length_append, List.length_append] at hlength
  obtain ⟨more, hmore⟩ := List.prefix_of_prefix_length_le (htext ▸ List.prefix_append u.ran u.rest)
    (List.prefix_append t.ran t.rest) (by omega)
  refine (hopen.made object ?_).elim hmissing hown
  rw [← hmore, creates_append]
  exact List.mem_append_left _ hran

/-- **No interleaving gets stuck.** Of the runs that wait, the one with the least left of its file
would wait for nobody. -/
theorem exists_step {k : ℕ} (h : Inv files k s) (hopen : ∃ i, (s.runs i).ended = false) :
    ∃ e s', step files s e = some s' := by
  by_contra hstuck
  have hnone : ∀ e, step files s e = none := fun e ↦
    Option.eq_none_iff_forall_ne_some.mpr fun s' hs' ↦ hstuck ⟨e, s', hs'⟩
  have hwaits : ∀ n i waited t, s.runs i = .executing waited t → t.rest.length ≠ n := by
    intro n
    induction n using Nat.strong_induction_on with
    | _ n ih =>
      rintro i waited t hi rfl
      obtain ⟨waited₁, t₁, object, b, rest, hi₁, hrest, hmissing, hown, j, hj⟩ :=
        exists_creating_of_stuck hnone (i := i) (by rw [hi]; rfl)
      obtain ⟨-, rfl⟩ := Stage.executing.inj (hi.symm.trans hi₁)
      have hended : (s.runs j).ended = false := by
        cases hstage : s.runs j with
        | finished c =>
          rw [hstage] at hj
          cases hj
        | _ => rfl
      obtain ⟨waited', u, _, _, _, hstage, -⟩ := exists_creating_of_stuck hnone hended
      rw [hstage] at hj
      exact ih _ (rest_lt_of_creating h hi hstage hrest hmissing hown hj) j waited' u hstage rfl
  obtain ⟨i, hi⟩ := hopen
  obtain ⟨waited, t, _, _, _, hstage, -⟩ := exists_creating_of_stuck hnone hi
  exact hwaits _ i waited t hstage rfl

/-! ## The migrations of the repository -/

/-- When all runs have ended all files have been committed, and one of the runs has gone through. -/
theorem Inv.complete {k : ℕ} (h : Inv files k s) (hN : 0 < N)
    (hended : ∀ i, (s.runs i).ended = true) :
    s.committed = files ∧ ∃ i, s.runs i = .finished 0 := by
  have hfinished : ∀ i, ∃ c, s.runs i = .finished c := by
    intro i
    have hi := hended i
    cases hstage : s.runs i with
    | finished c => exact ⟨c, rfl⟩
    | _ =>
      rw [hstage] at hi
      cases hi
  have hzero : ∃ i, s.runs i = .finished 0 := by
    rcases h.ahead with hk | ⟨i, hahead⟩
    · obtain ⟨c, hc⟩ := hfinished ⟨0, hN⟩
      have hstands : (Stage.finished c).Stands files k s.committed.length s.relations :=
        hc ▸ h.stands ⟨0, hN⟩
      rcases hstands with ⟨rfl, -⟩ | ⟨-, hlt⟩
      · exact ⟨_, hc⟩
      · exact absurd hk hlt.ne'
    · obtain ⟨c, hc⟩ := hfinished i
      rw [hc] at hahead
      exact ⟨i, hc.trans (congrArg _ hahead)⟩
  refine ⟨?_, hzero⟩
  obtain ⟨i, hi⟩ := hzero
  have hstands : (Stage.finished 0).Stands files k s.committed.length s.relations := hi ▸ h.stands i
  rcases hstands with ⟨-, hlength⟩ | ⟨hzero, -⟩
  · rw [h.committed_eq, List.take_of_length_le hlength]
  · exact absurd hzero Nat.zero_ne_one

/-- A run that has ended has done so with exit code 0, and 1 if it has been overtaken. -/
theorem exitCode_eq_one_iff (hfiles : Runnable files) (happlied : applied <+: files)
    {es : List (Event N)} {c : ℕ} (hrun : run (step files) (start N applied) es = some s)
    (hi : s.runs i = .finished c) :
    (c = 0 ∨ c = 1) ∧ (c = 1 ↔ Happened (step files) (Overtaken i) (start N applied) es) := by
  have hinv := (Inv.start happlied).run hfiles hrun
  have hstands : (Stage.finished c).Stands files applied.length s.committed.length s.relations :=
    hi ▸ hinv.stands i
  have hcode : c = 0 ∨ c = 1 := hstands.imp And.left And.left
  have hmark := marked_iff_happened (Inv files applied.length)
    (fun t : State N ↦ (t.runs i).Behind files t.committed.length)
    (fun h ↦ h.step hfiles) (fun h ↦ behind_iff_of_step hfiles h) (Inv.start happlied) hrun
  rw [or_iff_right fun h ↦ h.1 rfl, hi] at hmark
  refine ⟨hcode, ?_⟩
  rw [← hmark, Stage.Behind]
  rcases hcode with rfl | rfl <;> simp [Stage.Ahead]

/-- Two runs that read the applied set of an empty database one after the other: the second one
waits for the table of the first one. -/
def raced : List (Event 2) :=
  List.replicate 2 (.exec 0) ++ List.replicate 2 (.exec 1) ++ List.replicate 2 (.exec 0) ++
    List.replicate 2 (.exec 1) ++ List.replicate 25 (.exec 0) ++ List.replicate 2 (.exec 1) ++
    List.replicate 14 (.exec 0)

/-- Not every run finishes with exit code 0. -/
theorem second_run_fails :
    ¬ ∀ (N : ℕ) (es : List (Event N)) (s : State N), 0 < N →
      run (step migrationFiles) (start N []) es = some s → (∀ i, (s.runs i).ended = true) →
      ∀ i, s.runs i = .finished 0 := by
  obtain ⟨s, hrun, hended, hone⟩ : ∃ s, run (step migrationFiles) (start 2 []) raced = some s ∧
      (∀ i, (s.runs i).ended = true) ∧ s.runs 1 ≠ .finished 0 :=
    exists_run_of_any (fun s ↦ (s.runs 0).ended = true ∧ s.runs 1 = .finished 1) (by decide +kernel)
      fun s _ hs ↦ by
        refine ⟨fun i ↦ ?_, by rw [hs.2]; exact nofun⟩
        match i with
        | 0 => exact hs.1
        | 1 => rw [hs.2]; rfl
  exact fun hall ↦ hone (hall 2 raced s Nat.two_pos hrun hended 1)

/-- **Migrations run at once.** Whatever the order of the statements of `N` runs, the files that are
committed are a first part of the list, each of them once and with one row, no interleaving gets
stuck or goes on for ever, and when all runs have ended every file has been committed and one run at
least has exit code 0. A run ends with exit code 0 or 1, and with 1 exactly when another run has
committed a file between its SELECT and its end. -/
theorem migrations_at_once (N k : ℕ) {es : List (Event N)} {s : State N}
    (hrun : run (step migrationFiles) (start N (migrationFiles.take k)) es = some s) :
    (s.committed <+: migrationFiles ∧ s.rows = s.committed.map Migration.version) ∧
    (0 < N → (∀ i, (s.runs i).ended = true) →
      s.committed = migrationFiles ∧ ∃ i, s.runs i = .finished 0) ∧
    (∀ i c, s.runs i = .finished c → (c = 0 ∨ c = 1) ∧
      (c = 1 ↔ Happened (step migrationFiles) (Overtaken i) (start N (migrationFiles.take k)) es)) ∧
    ((∃ i, (s.runs i).ended = false) → ∃ e s', step migrationFiles s e = some s') ∧
    es.length ≤ N * 81 := by
  have happlied := List.take_prefix k migrationFiles
  have hinv := (Inv.start happlied).run runnable_migrationFiles hrun
  refine ⟨⟨hinv.committed, hinv.rows⟩, hinv.complete, fun i c hi ↦ ?_, exists_step hinv, ?_⟩
  · exact exitCode_eq_one_iff runnable_migrationFiles happlied hrun hi
  · have hcosts : costs migrationFiles + 2 = 81 := by decide +kernel
    rw [← hcosts, ← left_start]
    exact length_le_left hrun

theorem migrations_at_once_raced : ∃ s, run (step migrationFiles) (start 2 []) raced = some s ∧
    s.committed = migrationFiles ∧ s.rows = migrationFiles.map Migration.version ∧
    s.runs 0 = .finished 0 ∧ s.runs 1 = .finished 1 ∧
    Happened (step migrationFiles) (Overtaken 1) (start 2 []) raced := by
  obtain ⟨s, hrun, hzero, hone⟩ : ∃ s, run (step migrationFiles) (start 2 []) raced = some s ∧
      s.runs 0 = .finished 0 ∧ s.runs 1 = .finished 1 :=
    exists_run_of_any (fun s ↦ s.runs 0 = .finished 0 ∧ s.runs 1 = .finished 1) (by decide +kernel)
      fun _ _ hs ↦ hs
  obtain ⟨⟨-, hrows⟩, hcomplete, hcodes, -⟩ := migrations_at_once 2 0 hrun
  have hended : ∀ i, (s.runs i).ended = true
    | 0 => by rw [hzero]; rfl
    | 1 => by rw [hone]; rfl
  obtain ⟨hcommitted, -⟩ := hcomplete Nat.two_pos hended
  exact ⟨s, hrun, hcommitted, hcommitted ▸ hrows, hzero, hone, (hcodes 1 1 hone).2.mp rfl⟩

end Migrate
end PostgresChat
