import Mathlib.Algebra.GroupWithZero.Nat
import Mathlib.Data.List.Basic

/-!
# Updates of lists

Tables of handlers, calls and clients are lists, and their entries are known by position. An update
replaces the entry at one position; these lemmas say what it does to the image of a list and to its
members.
-/

namespace Lists

variable {α β : Type*} {l : List α} {i : ℕ} {a b : α}

/-- Setting an item to one with the same image. -/
theorem map_set_eq {f : α → β} (hget : l[i]? = some a) (hf : f b = f a) :
    (l.set i b).map f = l.map f := by
  rw [List.map_set, hf]
  have hmap : (l.map f)[i]? = some (f a) := by rw [List.getElem?_map, hget, Option.map_some]
  obtain ⟨hlt, heq⟩ := List.getElem?_eq_some_iff.mp hmap
  rw [← heq, List.set_getElem_self]

theorem modify_eq_set {f : α → α} (hget : l[i]? = some a) : l.modify i f = l.set i (f a) := by
  refine List.ext_getElem? fun j ↦ ?_
  obtain ⟨hlt, rfl⟩ := List.getElem?_eq_some_iff.mp hget
  rw [List.getElem?_modify, List.getElem?_set]
  split
  · rename_i hij
    subst hij
    rw [hget]
    rfl
  · exact Option.map_id'

/-- A sum over a list in which one item is modified. -/
theorem sum_map_modify {f : α → α} (g : α → ℕ) (hget : l[i]? = some a) :
    ((l.modify i f).map g).sum + g a = (l.map g).sum + g (f a) := by
  induction l generalizing i with
  | nil => cases hget
  | cons c l ih =>
    cases i with
    | zero =>
      obtain rfl : c = a := Option.some.inj hget
      rw [List.modify_zero_cons, List.map_cons, List.map_cons, List.sum_cons, List.sum_cons]
      omega
    | succ i =>
      rw [List.modify_succ_cons, List.map_cons, List.map_cons, List.sum_cons, List.sum_cons]
      have := ih hget
      omega

/-- A sum over a list in which one item is replaced. -/
theorem sum_map_set (g : α → ℕ) (hget : l[i]? = some a) :
    ((l.set i b).map g).sum + g a = (l.map g).sum + g b := by
  have hsum := sum_map_modify (f := fun _ ↦ b) g hget
  rwa [modify_eq_set hget] at hsum

/-- How many items satisfy `P` after one has been replaced. -/
theorem countP_set_add (P : α → Bool) (hget : l[i]? = some a) :
    (l.set i b).countP P + (P a).toNat = l.countP P + (P b).toNat := by
  induction l generalizing i with
  | nil => cases hget
  | cons c l ih =>
    cases i with
    | zero =>
      obtain rfl : c = a := Option.some.inj hget
      rw [List.set_cons_zero, List.countP_cons, List.countP_cons]
      cases P b <;> cases P c <;> simp
    | succ i =>
      rw [List.set_cons_succ, List.countP_cons, List.countP_cons, Nat.add_right_comm, ih hget,
        Nat.add_right_comm]

/-- Setting an item to one that a fold does not tell from it. -/
theorem foldl_set {σ : Type*} {f : σ → α → σ} (h : ∀ c, l[i]? = some c → ∀ s, f s b = f s c)
    (s : σ) : (l.set i b).foldl f s = l.foldl f s := by
  induction l generalizing i s with
  | nil => rfl
  | cons c l ih =>
    cases i with
    | zero => rw [List.set_cons_zero, List.foldl_cons, List.foldl_cons, h c rfl]
    | succ i => rw [List.set_cons_succ, List.foldl_cons, List.foldl_cons, ih fun c hc ↦ h c hc]

/-- A fold over items that leave every state as it is. -/
theorem foldl_eq_self {σ : Type*} {f : σ → α → σ} (h : ∀ c ∈ l, ∀ s, f s c = s) (s : σ) :
    l.foldl f s = s := by
  induction l with
  | nil => rfl
  | cons c l ih =>
    rw [List.foldl_cons, h c List.mem_cons_self, ih fun c hc ↦ h c (List.mem_cons_of_mem _ hc)]

/-- A list of one item has one position. -/
theorem of_singleton_eq_append_cons {pre post : List α} (h : [a] = pre ++ b :: post) :
    pre = [] ∧ a = b := by
  cases pre with
  | nil => exact ⟨rfl, (List.cons_eq_cons.mp h).1⟩
  | cons c pre => exact absurd (List.cons_eq_cons.mp h).2 (by simp)

/-- An item of a list with one more item is an old one, or the new one. -/
theorem getElem?_concat_eq_some :
    (l ++ [b])[i]? = some a ↔ l[i]? = some a ∨ i = l.length ∧ a = b := by
  constructor
  · intro h
    obtain ⟨hlt, heq⟩ := List.getElem?_eq_some_iff.mp h
    rw [List.length_append, List.length_singleton, Nat.lt_succ_iff_lt_or_eq] at hlt
    rcases hlt with hlt | rfl
    · rw [List.getElem?_append_left hlt] at h
      exact Or.inl h
    · rw [List.getElem?_concat_length] at h
      exact Or.inr ⟨rfl, (Option.some.inj h).symm⟩
  · rintro (h | ⟨rfl, rfl⟩)
    · exact (List.getElem?_append_left (List.getElem?_eq_some_iff.mp h).1).trans h
    · exact List.getElem?_concat_length

/-- An item of a list in which one item has been replaced is an old one, or the new one. -/
theorem of_getElem?_set {j : ℕ} (h : (l.set i b)[j]? = some a) :
    i ≠ j ∧ l[j]? = some a ∨ i = j ∧ a = b := by
  by_cases hij : i = j
  · subst hij
    rw [List.getElem?_set_self', Option.map_eq_map, Option.map_eq_some_iff] at h
    obtain ⟨-, -, rfl⟩ := h
    exact Or.inr ⟨rfl, rfl⟩
  · rw [List.getElem?_set_ne hij] at h
    exact Or.inl ⟨hij, h⟩

/-- An item with at least as many items before it as `l` has is not one of `l`. -/
theorem mem_of_append_cons_eq_append {pre post l' : List α} (h : pre ++ a :: post = l ++ l')
    (hle : l.length ≤ pre.length) : a ∈ l' := by
  rcases List.append_eq_append_iff.mp h with ⟨rest, rfl, hrest⟩ | ⟨rest, -, rfl⟩
  · have hnil : rest = [] := by
      rw [List.length_append] at hle
      exact List.length_eq_zero_iff.mp (by omega)
    rw [hnil, List.nil_append] at hrest
    exact hrest ▸ List.mem_cons_self
  · exact List.mem_append_right _ List.mem_cons_self

/-- What has been filtered out is not found. -/
theorem find?_filter_not {P : α → Prop} [DecidablePred P] (l : List α) :
    (l.filter fun a ↦ ¬ P a).find? (fun a ↦ P a) = none := by
  refine List.find?_eq_none.mpr fun a ha hP ↦ ?_
  exact of_decide_eq_true (List.mem_filter.mp ha).2 (of_decide_eq_true hP)

theorem find?_filter_not_concat {P : α → Prop} [DecidablePred P] (l : List α) (ha : P a) :
    ((l.filter fun a ↦ ¬ P a) ++ [a]).find? (fun a ↦ P a) = some a := by
  rw [List.find?_append, find?_filter_not, Option.none_or, List.find?_singleton,
    if_pos (decide_eq_true ha)]

end Lists
