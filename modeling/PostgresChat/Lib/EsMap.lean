import Mathlib.Data.List.Nodup
import Mathlib.Data.List.Basic

/-!
# Maps and sets of the ECMAScript standard

`EsMap` is the `Map` of the standard, with its list of records as the standard keeps it: a new key
is appended, an existing key is overwritten in place, and deleting a key empties its record without
removing it. Keeping the emptied records is what makes an iterator a position in the list: an
iterator that is suspended while the map changes visits exactly the keys that are live at or after
its position when it is resumed, which is what `LiveFrom` states.

`EsSet` is the `Set` of the standard. No iterator over a set is ever suspended, so it is kept
without emptied records.

Distinctness of keys is a field of both structures, so every map and set that can be built is
well formed and the lookup equations below hold without a hypothesis.
-/

/-- The keys of the records that are not emptied. -/
def EsMap.keysOf {K V : Type*} (entries : List (Option (K × V))) : List K :=
  entries.filterMap (Option.map Prod.fst)

/-- An ECMAScript `Map`: records in insertion order, `none` where a record was emptied. -/
structure EsMap (K V : Type*) where
  /-- The records. -/
  entries : List (Option (K × V))
  /-- No key has two records. -/
  nodup : (EsMap.keysOf entries).Nodup

namespace EsMap

variable {K V : Type*}

@[simp] theorem keysOf_nil : keysOf ([] : List (Option (K × V))) = [] := rfl

@[simp] theorem keysOf_none_cons (l : List (Option (K × V))) : keysOf (none :: l) = keysOf l := rfl

@[simp] theorem keysOf_some_cons (p : K × V) (l : List (Option (K × V))) :
    keysOf (some p :: l) = p.1 :: keysOf l := rfl

theorem keysOf_append (l l' : List (Option (K × V))) :
    keysOf (l ++ l') = keysOf l ++ keysOf l' := List.filterMap_append

theorem mem_keysOf {l : List (Option (K × V))} {k : K} :
    k ∈ keysOf l ↔ ∃ v, some (k, v) ∈ l := by
  rw [keysOf, List.mem_filterMap]
  constructor
  · rintro ⟨_ | ⟨k', v⟩, hmem, heq⟩
    · cases heq
    · rw [Option.map_some, Option.some.injEq] at heq
      exact ⟨v, heq ▸ hmem⟩
  · rintro ⟨v, hmem⟩
    exact ⟨some (k, v), hmem, rfl⟩

theorem eq_of_mem_of_nodup {l : List (Option (K × V))} (hl : (keysOf l).Nodup) {k : K} {v w : V}
    (hv : some (k, v) ∈ l) (hw : some (k, w) ∈ l) : v = w := by
  induction l with
  | nil => cases hv
  | cons e l ih =>
    cases e with
    | none =>
      exact ih hl ((List.mem_cons.mp hv).resolve_left (Option.some_ne_none _))
        ((List.mem_cons.mp hw).resolve_left (Option.some_ne_none _))
    | some p =>
      rw [keysOf_some_cons, List.nodup_cons] at hl
      rcases List.mem_cons.mp hv with hvp | hvl <;> rcases List.mem_cons.mp hw with hwp | hwl
      · rw [← hwp, Option.some.injEq, Prod.mk.injEq] at hvp
        exact hvp.2
      · rw [Option.some.injEq] at hvp
        subst hvp
        exact absurd (mem_keysOf.mpr ⟨w, hwl⟩) hl.1
      · rw [Option.some.injEq] at hwp
        subst hwp
        exact absurd (mem_keysOf.mpr ⟨v, hvl⟩) hl.1
      · exact ih hl.2 hvl hwl

/-! ## Operations -/

/-- The keys in iteration order. -/
def keys (m : EsMap K V) : List K := keysOf m.entries

/-- The live records in iteration order. -/
def toList (m : EsMap K V) : List (K × V) := m.entries.filterMap id

/-- `new Map()`. -/
def empty : EsMap K V := ⟨[], List.nodup_nil⟩

instance : EmptyCollection (EsMap K V) := ⟨empty⟩

variable [DecidableEq K]

/-- `map.get(k)`; `none` stands for `undefined`. -/
def get (m : EsMap K V) (k : K) : Option V := (m.toList.find? fun p ↦ p.1 = k).map Prod.snd

/-- Overwrite the value of the record of `k`, if `e` is one. -/
def overwrite (k : K) (v : V) : Option (K × V) → Option (K × V)
  | none => none
  | some p => if p.1 = k then some (k, v) else some p

/-- Empty the record `e` if it is one of `k`. -/
def clear (k : K) : Option (K × V) → Option (K × V)
  | none => none
  | some p => if p.1 = k then none else some p

theorem keysOf_map_overwrite (k : K) (v : V) (l : List (Option (K × V))) :
    keysOf (l.map (overwrite k v)) = keysOf l := by
  induction l with
  | nil => rfl
  | cons e l ih =>
    cases e with
    | none => exact ih
    | some p =>
      rw [List.map_cons, overwrite]
      split
      · rename_i hp
        rw [keysOf_some_cons, keysOf_some_cons, ih, hp]
      · rw [keysOf_some_cons, keysOf_some_cons, ih]

theorem keysOf_map_clear (k : K) (l : List (Option (K × V))) :
    keysOf (l.map (clear k)) = (keysOf l).filter fun k' ↦ k' ≠ k := by
  induction l with
  | nil => rfl
  | cons e l ih =>
    cases e with
    | none => exact ih
    | some p =>
      rw [List.map_cons, clear, keysOf_some_cons, List.filter_cons]
      split
      · rename_i hp
        rw [keysOf_none_cons, ih, if_neg (by simp [hp])]
      · rename_i hp
        rw [keysOf_some_cons, ih, if_pos (by simp [hp])]

/-- `map.set(k, v)`. -/
def set (m : EsMap K V) (k : K) (v : V) : EsMap K V :=
  if h : k ∈ m.keys then
    ⟨m.entries.map (overwrite k v), by rw [keysOf_map_overwrite]; exact m.nodup⟩
  else
    ⟨m.entries ++ [some (k, v)], by
      rw [keysOf_append, List.nodup_append']
      refine ⟨m.nodup, List.nodup_singleton k, fun a ha hk ↦ h ?_⟩
      rw [← show a = k from List.mem_singleton.mp hk]
      exact ha⟩

/-- `map.delete(k)`. -/
def delete (m : EsMap K V) (k : K) : EsMap K V :=
  ⟨m.entries.map (clear k), by rw [keysOf_map_clear]; exact m.nodup.filter _⟩

/-- The first live record of `l`, with its position; `l` starts at position `i`. -/
def firstLive : List (Option (K × V)) → ℕ → Option (ℕ × K × V)
  | [], _ => none
  | none :: l, i => firstLive l (i + 1)
  | some p :: _, i => some (i, p)

/-- Resume an iterator at position `i`: the next live record and its position. -/
def next (m : EsMap K V) (i : ℕ) : Option (ℕ × K × V) := firstLive (m.entries.drop i) i

/-- The key `k` has a live record at or after position `i`. -/
def LiveFrom (m : EsMap K V) (i : ℕ) (k : K) : Prop :=
  ∃ j v, i ≤ j ∧ m.entries[j]? = some (some (k, v))

/-! ## Lookup -/

variable {m : EsMap K V} {k k' : K} {v v' : V}

omit [DecidableEq K] in
theorem mem_toList : (k, v) ∈ m.toList ↔ some (k, v) ∈ m.entries := by
  rw [toList, List.mem_filterMap]
  exact ⟨fun ⟨_, hmem, heq⟩ ↦ heq ▸ hmem, fun h ↦ ⟨_, h, rfl⟩⟩

theorem get_eq_some_iff : m.get k = some v ↔ some (k, v) ∈ m.entries := by
  rw [get, Option.map_eq_some_iff]
  constructor
  · rintro ⟨⟨k', v'⟩, hfind, rfl⟩
    have hk : k' = k := by simpa using List.find?_some hfind
    exact hk ▸ mem_toList.mp (List.mem_of_find?_eq_some hfind)
  · intro hmem
    cases hfind : m.toList.find? fun p ↦ p.1 = k with
    | none =>
      have := List.find?_eq_none.mp hfind (k, v) (mem_toList.mpr hmem)
      simp at this
    | some p =>
      obtain ⟨k', v'⟩ := p
      have hk : k' = k := by simpa using List.find?_some hfind
      subst hk
      exact ⟨(k', v'), rfl, eq_of_mem_of_nodup m.nodup
        (mem_toList.mp (List.mem_of_find?_eq_some hfind)) hmem⟩

theorem mem_keys_iff : k ∈ m.keys ↔ (m.get k).isSome := by
  rw [keys, mem_keysOf, Option.isSome_iff_exists]
  simp only [get_eq_some_iff]

@[simp] theorem get_empty : (∅ : EsMap K V).get k = none := rfl

theorem mem_entries_set :
    some (k', v') ∈ (m.set k v).entries ↔
      k' = k ∧ v' = v ∨ k' ≠ k ∧ some (k', v') ∈ m.entries := by
  rw [set]
  split
  · rename_i hk
    rw [List.mem_map]
    constructor
    · rintro ⟨_ | p, hmem, heq⟩
      · cases heq
      · rw [overwrite] at heq
        split at heq
        · simp only [Option.some.injEq, Prod.mk.injEq] at heq
          exact Or.inl ⟨heq.1.symm, heq.2.symm⟩
        · rename_i hp
          rw [Option.some.injEq] at heq
          subst heq
          exact Or.inr ⟨hp, hmem⟩
    · rintro (⟨rfl, rfl⟩ | ⟨hne, hmem⟩)
      · obtain ⟨w, hw⟩ := mem_keysOf.mp hk
        exact ⟨_, hw, by simp [overwrite]⟩
      · exact ⟨_, hmem, by simp [overwrite, hne]⟩
  · rename_i hk
    rw [List.mem_append, List.mem_singleton, Option.some.injEq, Prod.mk.injEq]
    constructor
    · rintro (hmem | h)
      · refine Or.inr ⟨?_, hmem⟩
        rintro rfl
        exact hk (mem_keysOf.mpr ⟨_, hmem⟩)
      · exact Or.inl h
    · rintro (h | ⟨-, hmem⟩)
      · exact Or.inr h
      · exact Or.inl hmem

theorem mem_entries_delete :
    some (k', v') ∈ (m.delete k).entries ↔ k' ≠ k ∧ some (k', v') ∈ m.entries := by
  rw [delete, List.mem_map]
  constructor
  · rintro ⟨_ | p, hmem, heq⟩
    · cases heq
    · rw [clear] at heq
      split at heq
      · cases heq
      · rename_i hp
        rw [Option.some.injEq] at heq
        subst heq
        exact ⟨hp, hmem⟩
  · rintro ⟨hne, hmem⟩
    exact ⟨_, hmem, by simp [clear, hne]⟩

theorem get_set (m : EsMap K V) (k k' : K) (v : V) :
    (m.set k v).get k' = if k' = k then some v else m.get k' := by
  ext w
  rw [get_eq_some_iff, mem_entries_set]
  split
  · rename_i hk
    simp [hk, eq_comm]
  · rename_i hk
    simp [hk, get_eq_some_iff]

theorem get_delete (m : EsMap K V) (k k' : K) :
    (m.delete k).get k' = if k' = k then none else m.get k' := by
  ext w
  rw [get_eq_some_iff, mem_entries_delete]
  split
  · rename_i hk
    simp [hk]
  · rename_i hk
    simp [hk, get_eq_some_iff]

/-- Setting a key to the value it has. -/
theorem set_eq_self (h : m.get k = some v) : m.set k v = m := by
  have hk : k ∈ m.keys := mem_keys_iff.mpr (by rw [h]; rfl)
  have hentries : m.entries.map (overwrite k v) = m.entries := by
    refine (List.map_congr_left fun e he ↦ ?_).trans (List.map_id _)
    rw [id_eq]
    cases e with
    | none => rfl
    | some p =>
      rw [overwrite]
      split
      · rename_i hp
        obtain ⟨k', w⟩ := p
        subst hp
        rw [eq_of_mem_of_nodup m.nodup he (get_eq_some_iff.mp h)]
      · rfl
  rw [set, dif_pos hk]
  obtain ⟨entries, nodup⟩ := m
  congr 1

/-- Deleting a key that has just been added leaves an emptied record, and nothing live. -/
theorem toList_delete_set (h : m.get k = none) : ((m.set k v).delete k).toList = m.toList := by
  have hk : k ∉ m.keys := by
    rw [mem_keys_iff, h]
    exact Bool.false_ne_true
  have hclear : m.entries.map (clear k) = m.entries := by
    refine (List.map_congr_left fun e he ↦ ?_).trans (List.map_id _)
    rw [id_eq]
    cases e with
    | none => rfl
    | some p =>
      rw [clear, if_neg]
      rintro rfl
      exact hk (mem_keysOf.mpr ⟨p.2, he⟩)
  rw [set, dif_neg hk]
  change ((m.entries ++ [some (k, v)]).map (clear k)).filterMap id = m.entries.filterMap id
  rw [List.map_append, hclear, List.filterMap_append]
  simp [clear]

theorem get_eq_of_toList_eq {m' : EsMap K V} (h : m'.toList = m.toList) (k : K) :
    m'.get k = m.get k := by
  rw [get, h, get]

@[simp] theorem get_set_self : (m.set k v).get k = some v := by rw [get_set, if_pos rfl]

@[simp] theorem get_delete_self : (m.delete k).get k = none := by rw [get_delete, if_pos rfl]

theorem get_set_of_ne (h : k' ≠ k) : (m.set k v).get k' = m.get k' := by rw [get_set, if_neg h]

theorem get_delete_of_ne (h : k' ≠ k) : (m.delete k).get k' = m.get k' := by
  rw [get_delete, if_neg h]

/-- What all records contribute when only the one of `k` contributes anything. -/
theorem flatMap_toList {β : Type*} {f : K × V → List β}
    (h : ∀ k' v, k' ≠ k → some (k', v) ∈ m.entries → f (k', v) = []) :
    m.toList.flatMap f = ((m.get k).map fun v ↦ f (k, v)).getD [] := by
  have hlist : ∀ l : List (Option (K × V)), (keysOf l).Nodup →
      (∀ k' v, k' ≠ k → some (k', v) ∈ l → f (k', v) = []) →
      (l.filterMap id).flatMap f =
        (((l.filterMap id).find? fun p ↦ p.1 = k).map fun p ↦ f (k, p.2)).getD [] := by
    intro l hnodup hothers
    induction l with
    | nil => rfl
    | cons e l ih =>
      cases e with
      | none => exact ih hnodup fun k' v hk hmem ↦ hothers k' v hk (List.mem_cons_of_mem _ hmem)
      | some p =>
        obtain ⟨k', v⟩ := p
        rw [keysOf_some_cons, List.nodup_cons] at hnodup
        have hcons : (some (k', v) :: l).filterMap id = (k', v) :: l.filterMap id := rfl
        rw [hcons, List.flatMap_cons]
        by_cases hk : k' = k
        · subst hk
          have hrest : (l.filterMap id).flatMap f = [] := by
            rw [List.flatMap_eq_nil_iff]
            rintro ⟨k'', w⟩ hmem
            obtain ⟨_, hmem, rfl⟩ := List.mem_filterMap.mp hmem
            refine hothers k'' w ?_ (List.mem_cons_of_mem _ hmem)
            rintro rfl
            exact hnodup.1 (mem_keysOf.mpr ⟨w, hmem⟩)
          rw [hrest, List.append_nil, List.find?_cons_of_pos (by simp)]
          rfl
        · rw [hothers k' v hk List.mem_cons_self, List.nil_append,
            ih hnodup.2 fun k' v hk hmem ↦ hothers k' v hk (List.mem_cons_of_mem _ hmem),
            List.find?_cons_of_neg (by simpa using hk)]
  rw [get, Option.map_map]
  exact hlist m.entries m.nodup h

/-! ## Suspended iterators -/

theorem liveFrom_zero_iff : m.LiveFrom 0 k ↔ (m.get k).isSome := by
  rw [Option.isSome_iff_exists]
  simp only [get_eq_some_iff, LiveFrom, List.mem_iff_getElem?]
  exact ⟨fun ⟨j, v, _, h⟩ ↦ ⟨v, j, h⟩, fun ⟨v, j, h⟩ ↦ ⟨j, v, Nat.zero_le j, h⟩⟩

/-- Setting a key moves no record. -/
theorem LiveFrom.set {i : ℕ} (h : m.LiveFrom i k') : (m.set k v).LiveFrom i k' := by
  obtain ⟨j, w, hij, hj⟩ := h
  rw [EsMap.set]
  split
  · by_cases hk : k' = k
    · subst hk
      exact ⟨j, v, hij, by simp [hj, overwrite]⟩
    · exact ⟨j, w, hij, by simp [hj, overwrite, hk]⟩
  · obtain ⟨hlt, -⟩ := List.getElem?_eq_some_iff.mp hj
    exact ⟨j, w, hij, by rw [List.getElem?_append_left hlt, hj]⟩

/-- Deleting a key moves no other record. -/
theorem LiveFrom.delete {i : ℕ} (hk : k' ≠ k) (h : m.LiveFrom i k') :
    (m.delete k).LiveFrom i k' := by
  obtain ⟨j, w, hij, hj⟩ := h
  exact ⟨j, w, hij, by simp [EsMap.delete, hj, clear, hk]⟩

omit [DecidableEq K] in
theorem firstLive_eq_some {l : List (Option (K × V))} {i j : ℕ} {p : K × V}
    (h : firstLive l i = some (j, p)) :
    i ≤ j ∧ l[j - i]? = some (some p) ∧
      ∀ (n : ℕ) (q : K × V), l[n]? = some (some q) → n = j - i ∨ j - i < n := by
  induction l generalizing i with
  | nil => cases h
  | cons e l ih =>
    cases e with
    | none =>
      rw [firstLive] at h
      obtain ⟨hle, hget, hfirst⟩ := ih h
      have hj : j - i = j - (i + 1) + 1 := by omega
      refine ⟨by omega, by rw [hj, List.getElem?_cons_succ, hget], fun n q hn ↦ ?_⟩
      cases n with
      | zero => cases hn
      | succ n =>
        rw [List.getElem?_cons_succ] at hn
        have := hfirst n q hn
        omega
    | some p' =>
      rw [firstLive, Option.some.injEq, Prod.mk.injEq] at h
      obtain ⟨rfl, rfl⟩ := h
      refine ⟨Nat.le_refl i, by simp, fun n q _ ↦ ?_⟩
      omega

omit [DecidableEq K] in
theorem firstLive_eq_none {l : List (Option (K × V))} {i : ℕ} (h : firstLive l i = none) :
    ∀ (n : ℕ) (q : K × V), l[n]? ≠ some (some q) := by
  induction l generalizing i with
  | nil => simp
  | cons e l ih =>
    cases e with
    | none =>
      intro n q hn
      cases n with
      | zero => cases hn
      | succ n => exact ih h n q hn
    | some p => cases h

omit [DecidableEq K] in
/-- What an iterator step says: the record returned is live, and every key that was ahead of the
iterator is the returned one or is still ahead of it. -/
theorem next_eq_some {i j : ℕ} (h : m.next i = some (j, k, v)) :
    i ≤ j ∧ m.entries[j]? = some (some (k, v)) ∧
      ∀ k', m.LiveFrom i k' → k' = k ∨ m.LiveFrom (j + 1) k' := by
  obtain ⟨hle, hget, hfirst⟩ := firstLive_eq_some h
  rw [List.getElem?_drop, Nat.add_sub_cancel' hle] at hget
  refine ⟨hle, hget, fun k' ⟨n, w, hin, hn⟩ ↦ ?_⟩
  have hdrop : (m.entries.drop i)[n - i]? = some (some (k', w)) := by
    rw [List.getElem?_drop, Nat.add_sub_cancel' hin, hn]
  rcases hfirst (n - i) (k', w) hdrop with heq | hlt
  · have hnj : n = j := by omega
    rw [hnj, hget, Option.some.injEq, Option.some.injEq, Prod.mk.injEq] at hn
    exact Or.inl hn.1.symm
  · exact Or.inr ⟨n, w, by omega, hn⟩

omit [DecidableEq K] in
/-- An iterator that ends has nothing ahead of it. -/
theorem next_eq_none {i : ℕ} (h : m.next i = none) (k : K) : ¬ m.LiveFrom i k := by
  rintro ⟨n, w, hin, hn⟩
  refine firstLive_eq_none h (n - i) (k, w) ?_
  rw [List.getElem?_drop, Nat.add_sub_cancel' hin, hn]

end EsMap

/-! ## Sets -/

/-- An ECMAScript `Set`: distinct items in insertion order. -/
structure EsSet (α : Type*) where
  /-- The items. -/
  items : List α
  /-- No item occurs twice. -/
  nodup : items.Nodup
  deriving DecidableEq

namespace EsSet

variable {α : Type*} [DecidableEq α]

/-- `new Set()`. -/
def empty : EsSet α := ⟨[], List.nodup_nil⟩

instance : EmptyCollection (EsSet α) := ⟨empty⟩

instance : Membership α (EsSet α) := ⟨fun s a ↦ a ∈ s.items⟩

instance (a : α) (s : EsSet α) : Decidable (a ∈ s) := inferInstanceAs (Decidable (a ∈ s.items))

/-- `set.add(a)`. -/
def add (s : EsSet α) (a : α) : EsSet α :=
  if h : a ∈ s.items then s
  else ⟨s.items ++ [a], by
    rw [List.nodup_append']
    exact ⟨s.nodup, List.nodup_singleton a, fun _ hb hb' ↦ h (List.mem_singleton.mp hb' ▸ hb)⟩⟩

/-- `set.delete(a)`. -/
def delete (s : EsSet α) (a : α) : EsSet α :=
  ⟨s.items.filter fun b ↦ b ≠ a, s.nodup.filter _⟩

/-- `set.size`. -/
def size (s : EsSet α) : ℕ := s.items.length

variable {s : EsSet α} {a b : α}

omit [DecidableEq α] in
theorem mem_items : a ∈ s.items ↔ a ∈ s := Iff.rfl

omit [DecidableEq α] in
@[simp] theorem not_mem_empty : a ∉ (∅ : EsSet α) := List.not_mem_nil

@[simp] theorem mem_add : b ∈ s.add a ↔ b = a ∨ b ∈ s := by
  rw [← mem_items, ← mem_items, add]
  split
  · rename_i ha
    exact ⟨Or.inr, fun h ↦ h.elim (· ▸ ha) id⟩
  · rw [List.mem_append, List.mem_singleton, or_comm]

@[simp] theorem mem_delete : b ∈ s.delete a ↔ b ≠ a ∧ b ∈ s := by
  rw [← mem_items, ← mem_items, delete, List.mem_filter, decide_eq_true_iff, and_comm]

omit [DecidableEq α] in
theorem size_eq_zero_iff : s.size = 0 ↔ ∀ a, a ∉ s := by
  rw [size, List.length_eq_zero_iff, List.eq_nil_iff_forall_not_mem]
  rfl

end EsSet
