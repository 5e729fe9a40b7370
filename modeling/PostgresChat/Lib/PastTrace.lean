import Mathlib.Data.List.Induction

/-!
# Past-time properties of a growing log

A log records what has been observed, oldest first, and only ever grows at its end. Two operators
suffice for the properties stated over logs: `Since p q log`, "some entry satisfies `p` and none
after it satisfies `q`", and `Each P log`, "every entry satisfies `P` with respect to the entries
before it". Both have an equation for one more entry, which is the form an induction over steps
consumes.
-/

namespace PastTrace

variable {α : Type*}

/-- Some entry satisfies `p`, and no later entry satisfies `q`. -/
def Since (p q : α → Prop) (log : List α) : Prop :=
  ∃ pre a post, log = pre ++ a :: post ∧ p a ∧ ∀ b ∈ post, ¬ q b

/-- Every entry satisfies `P` with respect to the entries before it. -/
def Each (P : List α → α → Prop) (log : List α) : Prop :=
  ∀ pre a post, log = pre ++ a :: post → P pre a

variable {p q p' q' : α → Prop} {P Q : List α → α → Prop} {log : List α} {o : α}

@[simp] theorem not_since_nil : ¬ Since p q [] := by
  rintro ⟨pre, a, post, h, -⟩
  exact List.append_ne_nil_of_right_ne_nil pre (List.cons_ne_nil a post) h.symm

theorem since_cons {a : α} :
    Since p q (a :: log) ↔ (p a ∧ ∀ b ∈ log, ¬ q b) ∨ Since p q log := by
  constructor
  · rintro ⟨_ | ⟨b, pre⟩, c, post, h, hc, hpost⟩
    · obtain ⟨rfl, rfl⟩ := List.cons_eq_cons.mp h
      exact Or.inl ⟨hc, hpost⟩
    · exact Or.inr ⟨pre, c, post, (List.cons_eq_cons.mp h).2, hc, hpost⟩
  · rintro (⟨ha, hlog⟩ | ⟨pre, c, post, rfl, hc, hpost⟩)
    · exact ⟨[], a, log, rfl, ha, hlog⟩
    · exact ⟨a :: pre, c, post, rfl, hc, hpost⟩

instance decidableSince [DecidablePred p] [DecidablePred q] :
    (log : List α) → Decidable (Since p q log)
  | [] => isFalse not_since_nil
  | a :: log =>
    have := decidableSince log
    decidable_of_iff ((p a ∧ ∀ b ∈ log, ¬ q b) ∨ Since p q log) since_cons.symm

/-- Where an entry of a log with one more entry lies: it is the new one, or it lies before it. -/
theorem concat_eq_append_cons {pre post : List α} {a : α}
    (h : log ++ [o] = pre ++ a :: post) :
    (pre = log ∧ a = o) ∨ ∃ rest, post = rest ++ [o] ∧ log = pre ++ a :: rest := by
  rcases List.eq_nil_or_concat post with rfl | ⟨rest, b, rfl⟩
  · obtain ⟨hpre, hao⟩ := List.append_inj' h rfl
    exact Or.inl ⟨hpre.symm, (List.singleton_inj.mp hao).symm⟩
  · rw [List.concat_eq_append, ← List.cons_append, ← List.append_assoc] at h
    obtain ⟨hlog, hob⟩ := List.append_inj' h rfl
    exact Or.inr ⟨rest, by rw [List.concat_eq_append, List.singleton_inj.mp hob], hlog⟩

/-- One more entry: it is the witness, or the old witness survives it. -/
theorem since_concat : Since p q (log ++ [o]) ↔ p o ∨ Since p q log ∧ ¬ q o := by
  constructor
  · rintro ⟨pre, a, post, h, ha, hpost⟩
    rcases concat_eq_append_cons h with ⟨-, rfl⟩ | ⟨rest, rfl, hlog⟩
    · exact Or.inl ha
    · exact Or.inr ⟨⟨pre, a, rest, hlog, ha, fun b hb ↦ hpost b (List.mem_append_left _ hb)⟩,
        hpost o (List.mem_append_right _ List.mem_cons_self)⟩
  · rintro (ho | ⟨⟨pre, a, post, rfl, ha, hpost⟩, ho⟩)
    · exact ⟨log, o, [], rfl, ho, fun b hb ↦ absurd hb List.not_mem_nil⟩
    · refine ⟨pre, a, post ++ [o], by simp, ha, fun b hb ↦ ?_⟩
      rcases List.mem_append.mp hb with hb | hb
      · exact hpost b hb
      · rwa [List.mem_singleton.mp hb]

/-- Entries that satisfy neither property change nothing. -/
theorem since_append_of_neutral {os : List α} (h : ∀ o ∈ os, ¬ p o ∧ ¬ q o) :
    Since p q (log ++ os) ↔ Since p q log := by
  induction os using List.reverseRecOn with
  | nil => rw [List.append_nil]
  | append_singleton os o ih =>
    obtain ⟨hp, hq⟩ := h o (List.mem_append_right _ List.mem_cons_self)
    rw [← List.append_assoc, since_concat, ih fun o' ho' ↦ h o' (List.mem_append_left _ ho')]
    simp only [hp, hq, false_or, not_false_eq_true, and_true]

/-- More entries do not bring it about unless one of them satisfies the first property. -/
theorem Since.of_append {os : List α} (h : Since p q (log ++ os)) (hos : ∀ o ∈ os, ¬ p o) :
    Since p q log := by
  induction os using List.reverseRecOn with
  | nil => rwa [List.append_nil] at h
  | append_singleton os o ih =>
    rw [← List.append_assoc, since_concat] at h
    rcases h with ho | ⟨h, -⟩
    · exact absurd ho (hos o (List.mem_append_right _ List.mem_cons_self))
    · exact ih h fun o' ho' ↦ hos o' (List.mem_append_left _ ho')

theorem Since.mono (hp : ∀ a, p a → p' a) (hq : ∀ a, q' a → q a) (h : Since p q log) :
    Since p' q' log := by
  obtain ⟨pre, a, post, hlog, ha, hpost⟩ := h
  exact ⟨pre, a, post, hlog, hp a ha, fun b hb hb' ↦ hpost b hb (hq b hb')⟩

theorem Since.exists_mem (h : Since p q log) : ∃ a ∈ log, p a := by
  obtain ⟨pre, a, post, rfl, ha, -⟩ := h
  exact ⟨a, List.mem_append_right _ List.mem_cons_self, ha⟩

@[simp] theorem each_nil : Each P [] := by
  rintro pre a post h
  exact absurd h.symm (List.append_ne_nil_of_right_ne_nil pre (List.cons_ne_nil a post))

/-- One more entry has to satisfy `P` with respect to the log so far. -/
theorem each_concat : Each P (log ++ [o]) ↔ Each P log ∧ P log o := by
  constructor
  · intro h
    refine ⟨fun pre a post hlog ↦ h pre a (post ++ [o]) ?_, h log o [] rfl⟩
    rw [hlog, List.append_assoc, List.cons_append]
  · rintro ⟨h, ho⟩ pre a post hlog
    rcases concat_eq_append_cons hlog with ⟨rfl, rfl⟩ | ⟨rest, -, hlog⟩
    · exact ho
    · exact h pre a rest hlog

/-- More entries have to satisfy `P` with respect to what is before them. -/
theorem each_append {os : List α} (hlog : Each P log)
    (h : ∀ pre a post, os = pre ++ a :: post → P (log ++ pre) a) : Each P (log ++ os) := by
  induction os using List.reverseRecOn with
  | nil => rwa [List.append_nil]
  | append_singleton os o ih =>
    rw [← List.append_assoc, each_concat]
    refine ⟨ih fun pre a post hos ↦ h pre a (post ++ [o]) ?_, h os o [] rfl⟩
    rw [hos, List.append_assoc, List.cons_append]

theorem Each.mono (h : ∀ pre a, P pre a → Q pre a) (hlog : Each P log) : Each Q log :=
  fun pre a post heq ↦ h pre a (hlog pre a post heq)

end PastTrace
