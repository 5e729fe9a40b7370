import Mathlib.Data.List.Basic

/-!
# Effects that are owed

Workers act on one state. Each of them has some effects left to apply, in a fixed order, and the
worker that came first is meant to be done first. What the state is meant to become is then a fold
over all that is owed (`outcome`).

A worker need not wait for its turn. When it applies its next effect, the outcome stays what it was
if the effect commutes, in the state it is applied in, with what the workers before it still owe
(`outcome_set`); what the workers after it owe does not matter. A run in which this holds of every
effect therefore ends, once nothing is owed, where the workers one after another would have ended.
-/

namespace Owed

variable {σ ε : Type*} {apply : σ → ε → σ}

/-- The state when all that is owed has been applied, one worker after another. -/
def outcome (apply : σ → ε → σ) (owed : List (List ε)) (s : σ) : σ := owed.flatten.foldl apply s

/-- It makes no difference whether `x` is applied to `s` before or after the effects `l`. -/
def Commutes (apply : σ → ε → σ) (l : List ε) (s : σ) (x : ε) : Prop :=
  l.foldl apply (apply s x) = apply (l.foldl apply s) x

theorem commutes_nil (s : σ) (x : ε) : Commutes apply [] s x := rfl

theorem commutes_cons {l : List ε} {s : σ} {x y : ε}
    (hy : apply (apply s x) y = apply (apply s y) x) (h : Commutes apply l (apply s y) x) :
    Commutes apply (y :: l) s x := by
  rw [Commutes, List.foldl_cons, List.foldl_cons, hy]
  exact h

/-- An effect commutes with effects that it commutes with one by one, in all states. -/
theorem commutes_of_forall {l : List ε} {x : ε}
    (h : ∀ y ∈ l, ∀ s, apply (apply s x) y = apply (apply s y) x) (s : σ) :
    Commutes apply l s x := by
  induction l generalizing s with
  | nil => exact commutes_nil s x
  | cons y l ih =>
    exact commutes_cons (h y List.mem_cons_self s)
      (ih (fun z hz ↦ h z (List.mem_cons_of_mem y hz)) (apply s y))

/-! ## Outcomes -/

theorem outcome_of_forall_nil {owed : List (List ε)} (h : ∀ l ∈ owed, l = []) (s : σ) :
    outcome apply owed s = s := by
  rw [outcome, List.flatten_eq_nil_iff.mpr h, List.foldl_nil]

/-- Another worker comes last. -/
theorem outcome_concat (owed : List (List ε)) (l : List ε) (s : σ) :
    outcome apply (owed ++ [l]) s = l.foldl apply (outcome apply owed s) := by
  rw [outcome, List.flatten_concat, List.foldl_append, outcome]

/-- **A worker applies its next effect, if it has one now.** The outcome is the same when the effect
commutes with what the workers before it owe. -/
theorem outcome_set {owed : List (List ε)} {k : ℕ} {x : Option ε} {l : List ε} {s : σ}
    (hget : owed[k]? = some (x.toList ++ l))
    (hcomm : ∀ y ∈ x, Commutes apply (owed.take k).flatten s y) :
    outcome apply (owed.set k l) (x.toList.foldl apply s) = outcome apply owed s := by
  obtain ⟨hlt, heq⟩ := List.getElem?_eq_some_iff.mp hget
  have howed : owed = owed.take k ++ (x.toList ++ l) :: owed.drop (k + 1) := by
    rw [← heq, List.getElem_cons_drop, List.take_append_drop]
  have hset : owed.set k l = owed.take k ++ l :: owed.drop (k + 1) :=
    List.set_eq_take_append_cons_drop.trans (if_pos hlt)
  have hearlier : (owed.take k).flatten.foldl apply (x.toList.foldl apply s) =
      x.toList.foldl apply ((owed.take k).flatten.foldl apply s) := by
    cases x with
    | none => rfl
    | some y => exact hcomm y rfl
  conv_rhs => rw [outcome, howed]
  rw [outcome, hset]
  simp only [List.flatten_append, List.flatten_cons, List.foldl_append, hearlier]

end Owed
