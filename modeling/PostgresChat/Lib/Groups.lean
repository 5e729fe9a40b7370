import PostgresChat.Lib.EsMap

/-!
# Sets by key, and loops over a map

A program that keeps items by key has a `Map` whose values are `Set`s, and two operations on it:
`insertItem` puts an item into the set of a key, and makes an entry if there is none; `removeItem`
takes an item out, and deletes the entry with its last item. `Occupied` says that the entries are
those of the keys that have items, which both keep.

A loop `for (const [key, value] of map.entries())` reads the map anew for each round (`visit`). When
its body changes no record but that of the key it is at, and adds none, the loop visits the keys
there are when it starts: it is the fold over them (`visit_eq_foldl`).
-/

namespace EsMap

variable {K α : Type*} [DecidableEq K] [DecidableEq α]

/-! ## Sets by key -/

/-- The items of a key, none when there is no entry. -/
def itemsOf (m : EsMap K (EsSet α)) (k : K) : EsSet α := (m.get k).getD ∅

/-- Put an item into the set of a key. -/
def insertItem (m : EsMap K (EsSet α)) (k : K) (a : α) : EsMap K (EsSet α) :=
  m.set k ((m.itemsOf k).add a)

/-- Take an item out of the set of a key. -/
def removeItem (m : EsMap K (EsSet α)) (k : K) (a : α) : EsMap K (EsSet α) :=
  match m.get k with
  | none => m
  | some items => if (items.delete a).size = 0 then m.delete k else m.set k (items.delete a)

/-- Every entry has an item. -/
def Occupied (m : EsMap K (EsSet α)) : Prop := ∀ k items, m.get k = some items → items.size ≠ 0

variable {m : EsMap K (EsSet α)} {k k' : K} {a b : α} {items : EsSet α}

omit [DecidableEq α] in
theorem itemsOf_of_get_eq_some (h : m.get k = some items) : m.itemsOf k = items := by
  rw [itemsOf, h, Option.getD_some]

theorem mem_itemsOf_insertItem :
    b ∈ (m.insertItem k a).itemsOf k' ↔ k' = k ∧ b = a ∨ b ∈ m.itemsOf k' := by
  rw [itemsOf, insertItem, get_set]
  split
  · rename_i hk
    subst hk
    rw [Option.getD_some, EsSet.mem_add]
    simp only [true_and]
  · rename_i hk
    simp only [hk, false_and, false_or]
    rfl

theorem get_removeItem_of_ne (hk : k' ≠ k) : (m.removeItem k a).get k' = m.get k' := by
  rw [removeItem]
  split
  · rfl
  · split
    · exact get_delete_of_ne hk
    · exact get_set_of_ne hk

theorem mem_itemsOf_removeItem :
    b ∈ (m.removeItem k a).itemsOf k' ↔ b ∈ m.itemsOf k' ∧ ¬ (k' = k ∧ b = a) := by
  by_cases hk : k' = k
  · subst hk
    simp only [true_and]
    rw [itemsOf, removeItem]
    split
    · rename_i hget
      rw [itemsOf, hget]
      exact ⟨fun h ↦ absurd h EsSet.not_mem_empty, fun h ↦ h.1⟩
    · rename_i items hget
      rw [itemsOf_of_get_eq_some hget, ← ne_eq, and_comm, ← EsSet.mem_delete]
      split
      · rename_i hsize
        rw [get_delete_self]
        exact ⟨fun h ↦ absurd h EsSet.not_mem_empty,
          fun h ↦ absurd h (EsSet.size_eq_zero_iff.mp hsize b)⟩
      · rw [get_set_self, Option.getD_some]
  · rw [itemsOf, get_removeItem_of_ne hk]
    simp only [hk, false_and, not_false_eq_true, and_true]
    rfl

/-- Taking out an item a second time changes nothing. -/
theorem removeItem_removeItem : (m.removeItem k a).removeItem k a = m.removeItem k a := by
  cases hget : m.get k with
  | none => rw [show m.removeItem k a = m by rw [removeItem, hget], removeItem, hget]
  | some items =>
    by_cases hsize : (items.delete a).size = 0
    · have hfirst : m.removeItem k a = m.delete k := by
        rw [removeItem, hget]
        exact if_pos hsize
      rw [hfirst, removeItem, get_delete_self]
    · have hfirst : m.removeItem k a = m.set k (items.delete a) := by
        rw [removeItem, hget]
        exact if_neg hsize
      have hagain : (items.delete a).delete a = items.delete a := by
        rw [EsSet.delete, EsSet.mk.injEq]
        exact List.filter_eq_self.mpr fun b hb ↦
          decide_eq_true (EsSet.mem_delete.mp (EsSet.mem_items.mp hb)).1
      have hself : (m.set k (items.delete a)).set k (items.delete a) =
          m.set k (items.delete a) := set_eq_self get_set_self
      rw [hfirst, removeItem, get_set_self]
      dsimp only
      rw [hagain, if_neg hsize, hself]

/-! ## Every entry has an item -/

omit [DecidableEq α] in
theorem occupied_empty : Occupied (∅ : EsMap K (EsSet α)) := by
  rintro k items ⟨⟩

theorem Occupied.insertItem (h : m.Occupied) : (m.insertItem k a).Occupied := by
  intro k' items hget hsize
  rw [EsMap.insertItem, get_set] at hget
  split at hget
  · obtain rfl := Option.some.inj hget
    exact EsSet.size_eq_zero_iff.mp hsize a (EsSet.mem_add.mpr (Or.inl rfl))
  · exact h k' items hget hsize

theorem Occupied.removeItem (h : m.Occupied) : (m.removeItem k a).Occupied := by
  rw [EsMap.removeItem]
  split
  · exact h
  · split
    · intro k' items' hget'
      rw [get_delete] at hget'
      split at hget'
      · cases hget'
      · exact h k' items' hget'
    · rename_i hsize
      intro k' items' hget'
      rw [get_set] at hget'
      split at hget'
      · obtain rfl := Option.some.inj hget'
        exact hsize
      · exact h k' items' hget'

/-! ## Loops -/

section Loops

variable {V σ : Type*} {records : σ → EsMap K V} {body : σ → K → σ}

/-- The rounds of a loop whose iterator is at position `i`, at most `fuel` of them. -/
def visit (records : σ → EsMap K V) (body : σ → K → σ) : ℕ → ℕ → σ → σ
  | 0, _, s => s
  | fuel + 1, i, s =>
    match (records s).next i with
    | some (j, k, _) => visit records body fuel (j + 1) (body s k)
    | none => s

/-- The records of `m'` are those of `m`, but for the record of `k`. -/
def SameBut (k : K) (m m' : EsMap K V) : Prop :=
  ∃ f : Option (K × V) → Option (K × V),
    m'.entries = m.entries.map f ∧ ∀ e, e.map Prod.fst ≠ some k → f e = e

omit [DecidableEq K] in
theorem SameBut.refl (k : K) (m : EsMap K V) : SameBut k m m :=
  ⟨id, (List.map_id _).symm, fun _ _ ↦ rfl⟩

theorem sameBut_delete (m : EsMap K V) (k : K) : SameBut k m (m.delete k) := by
  refine ⟨clear k, rfl, fun e he ↦ ?_⟩
  cases e with
  | none => rfl
  | some p => exact if_neg fun hp ↦ he (congrArg some hp)

theorem sameBut_set {m : EsMap K V} {k : K} (hk : k ∈ m.keys) (v : V) :
    SameBut k m (m.set k v) := by
  refine ⟨overwrite k v, ?_, fun e he ↦ ?_⟩
  · rw [EsMap.set, dif_pos hk]
  · cases e with
    | none => rfl
    | some p => exact if_neg fun hp ↦ he (congrArg some hp)

omit [DecidableEq K] in
/-- Where the key is not, nothing changes. -/
theorem map_eq_self {k : K} {f : Option (K × V) → Option (K × V)} {l : List (Option (K × V))}
    (hf : ∀ e, e.map Prod.fst ≠ some k → f e = e) (hk : k ∉ keysOf l) : l.map f = l := by
  refine (List.map_congr_left fun e he ↦ ?_).trans (List.map_id l)
  refine hf e fun hkey ↦ hk ?_
  obtain ⟨p, rfl, rfl⟩ := Option.map_eq_some_iff.mp hkey
  exact mem_keysOf.mpr ⟨p.2, he⟩

omit [DecidableEq K] in
/-- The keys of a list of records, told by its first live record. -/
theorem keysOf_of_firstLive {l : List (Option (K × V))} {i : ℕ} :
    keysOf l = match firstLive l i with
      | some (j, k, _) => k :: keysOf (l.drop (j + 1 - i))
      | none => [] := by
  induction l generalizing i with
  | nil => rfl
  | cons e l ih =>
    cases e with
    | none =>
      rw [keysOf_none_cons, firstLive, ih (i := i + 1)]
      cases hlive : firstLive l (i + 1) with
      | none => rfl
      | some found =>
        obtain ⟨j, k, v⟩ := found
        have hle := (firstLive_eq_some hlive).1
        have hsucc : j + 1 - i = (j + 1 - (i + 1)) + 1 := by omega
        dsimp only
        rw [hsucc, List.drop_succ_cons]
    | some p =>
      rw [keysOf_some_cons, firstLive]
      dsimp only
      rw [show i + 1 - i = 0 + 1 by omega, List.drop_succ_cons, List.drop_zero]

omit [DecidableEq K] in
/-- **A loop whose body changes at most the record it is at** visits the keys there are when it
starts. -/
theorem visit_eq_foldl (hbody : ∀ s k, k ∈ (records s).keys → SameBut k (records s)
      (records (body s k))) {fuel i : ℕ} {s : σ}
    (hfuel : (records s).entries.length < fuel + i) :
    visit records body fuel i s = (keysOf ((records s).entries.drop i)).foldl body s := by
  induction fuel generalizing i s with
  | zero =>
    rw [List.drop_eq_nil_of_le (by omega)]
    rfl
  | succ fuel ih =>
    rw [visit, keysOf_of_firstLive (i := i), next]
    cases hlive : firstLive ((records s).entries.drop i) i with
    | none => rfl
    | some found =>
      obtain ⟨j, k, v⟩ := found
      obtain ⟨hle, hget, -⟩ := next_eq_some (m := records s) hlive
      have hkey : k ∈ (records s).keys := mem_keysOf.mpr ⟨v, List.mem_of_getElem? hget⟩
      obtain ⟨f, hentries, hf⟩ := hbody s k hkey
      have hlength : (records (body s k)).entries.length = (records s).entries.length := by
        rw [hentries, List.length_map]
      -- The key is not met again, so the records ahead are those from before the round.
      have hahead : k ∉ keysOf ((records s).entries.drop (j + 1)) := by
        have hnodup := (records s).nodup
        obtain ⟨hlt, hj⟩ := List.getElem?_eq_some_iff.mp hget
        rw [← List.take_append_drop j (records s).entries, keysOf_append,
          List.drop_eq_getElem_cons hlt, hj, keysOf_some_cons] at hnodup
        exact (List.nodup_cons.mp (List.nodup_append'.mp hnodup).2.1).1
      have hdrop : (records (body s k)).entries.drop (j + 1) =
          (records s).entries.drop (j + 1) := by
        rw [hentries, ← List.map_drop, map_eq_self hf hahead]
      dsimp only
      rw [ih (by omega), List.foldl_cons, hdrop, List.drop_drop,
        show i + (j + 1 - i) = j + 1 by omega]

end Loops

end EsMap
