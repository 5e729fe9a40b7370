import Mathlib.Data.Set.Insert
import Mathlib.Data.List.Induction

/-!
# What announcements tell

A set changes as elements are put in and taken out, and only what is put in is announced. What is in
the set at the end has been there from the start or has been announced, and has not been taken out
last; so two histories that announce the same end with the same set exactly when they have taken the
same of these elements out last (`outcome_eq_iff`).
-/

namespace Announced

variable {α : Type*}

/-- A change of a set. -/
inductive Change (α : Type*)
  | put (a : α)
  | take (a : α)
  deriving DecidableEq

namespace Change

/-- The element it is about. -/
def about : Change α → α
  | .put a | .take a => a

/-- The element that is announced. -/
def announces : Change α → Option α
  | .put a => some a
  | .take _ => none

/-- The set after the change. -/
def apply (s : Set α) : Change α → Set α
  | .put a => insert a s
  | .take a => s \ {a}

end Change

/-- The set after all changes. -/
def outcome (s : Set α) (cs : List (Change α)) : Set α := cs.foldl Change.apply s

/-- What has been announced, in order. -/
def announced (cs : List (Change α)) : List α := cs.filterMap Change.announces

variable {s : Set α} {a : α} {cs cs' : List (Change α)} {c : Change α}

theorem outcome_concat : outcome s (cs ++ [c]) = c.apply (outcome s cs) := by
  rw [outcome, List.foldl_append, List.foldl_cons, List.foldl_nil, outcome]

theorem announced_append (cs cs' : List (Change α)) :
    announced (cs ++ cs') = announced cs ++ announced cs' := List.filterMap_append

section Last

variable [DecidableEq α]

/-- The last change that is about `a`. -/
def last? (a : α) (cs : List (Change α)) : Option (Change α) :=
  cs.reverse.find? fun c ↦ decide (c.about = a)

/-- `a` has been taken out last. -/
def TakenLast (a : α) (cs : List (Change α)) : Prop := last? a cs = some (.take a)

instance (a : α) (cs : List (Change α)) : Decidable (TakenLast a cs) :=
  inferInstanceAs (Decidable (last? a cs = some (.take a)))

theorem last?_concat :
    last? a (cs ++ [c]) = if c.about = a then some c else last? a cs := by
  rw [last?, List.reverse_append, List.reverse_singleton, List.singleton_append, List.find?_cons]
  by_cases h : c.about = a
  · rw [decide_eq_true h, if_pos h]
  · rw [decide_eq_false h, if_neg h]
    rfl

/-- **What is in the set at the end.** -/
theorem mem_outcome :
    a ∈ outcome s cs ↔ (a ∈ s ∨ a ∈ announced cs) ∧ ¬ TakenLast a cs := by
  induction cs using List.reverseRecOn with
  | nil => simp [outcome, announced, TakenLast, last?]
  | append_singleton cs c ih =>
    rw [outcome_concat, announced_append, List.mem_append, TakenLast, last?_concat]
    cases c with
    | put b =>
      rcases eq_or_ne b a with rfl | hb
      · simp [Change.apply, Change.about, announced, Change.announces]
      · rw [Change.apply, Set.mem_insert_iff, or_iff_right hb.symm, ih, Change.about, if_neg hb]
        simp [announced, Change.announces, hb.symm, TakenLast]
    | take b =>
      rcases eq_or_ne b a with rfl | hb
      · simp [Change.apply, Change.about]
      · rw [Change.apply, Set.mem_sdiff, Set.mem_singleton_iff, and_iff_left hb.symm, ih,
          Change.about, if_neg hb]
        simp [announced, Change.announces, TakenLast]

/-- **Two histories that announce the same.** -/
theorem outcome_eq_iff (h : announced cs = announced cs') :
    outcome s cs = outcome s cs' ↔
      ∀ a, a ∈ s ∨ a ∈ announced cs → (TakenLast a cs ↔ TakenLast a cs') := by
  rw [Set.ext_iff]
  refine forall_congr' fun a ↦ ?_
  rw [mem_outcome, mem_outcome, ← h, and_congr_right_iff, not_iff_not]

end Last

end Announced
