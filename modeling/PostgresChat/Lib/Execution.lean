import Mathlib.Data.Option.Basic
import Mathlib.Data.List.Basic

/-!
# Runs of a partial step function

A system is a function `step : σ → ε → Option σ`: the event `e` is enabled in `s` exactly when
`step s e` is a state, and everything nondeterministic (which event comes next, how a request is
answered) is carried by the event. A run is then a list of events, and a property of all
interleavings is a statement about all lists.

A few rules carry every proof about runs below them: an invariant is preserved by one step
(`run_invariant`), possibly only by the steps that meet a guard (`guarded_invariant`), or it speaks
of what has happened so far (`happened_invariant`) or of all that has been emitted
(`trace_invariant`); and a measure that every step lowers bounds the length of a run
(`length_le_of_lowers`).
-/

namespace Execution

variable {σ ε τ δ ω : Type*}

/-- The state after the events `es`, provided each of them is enabled in turn. -/
def run (step : σ → ε → Option σ) (s : σ) : List ε → Option σ
  | [] => some s
  | e :: es => (step s e).bind fun t ↦ run step t es

/-- Every step of the run from `s` along `es` meets the guard `G` in the state it is taken in. -/
def Guarded (step : σ → ε → Option σ) (G : σ → ε → Prop) (s : σ) : List ε → Prop
  | [] => True
  | e :: es => G s e ∧ ∀ t, step s e = some t → Guarded step G t es

/-- Some step of the run from `s` along `es` is one of `G`. -/
def Happened (step : σ → ε → Option σ) (G : σ → ε → Prop) (s : σ) : List ε → Prop
  | [] => False
  | e :: es => G s e ∨ ∃ t, step s e = some t ∧ Happened step G t es

/-- What the steps of the run from `s` along `es` emit, the first step first. -/
def trace (step : σ → ε → Option σ) (emit : σ → ε → List ω) (s : σ) : List ε → List ω
  | [] => []
  | e :: es => emit s e ++ (step s e).elim [] fun t ↦ trace step emit t es

variable {step : σ → ε → Option σ} {G : σ → ε → Prop}

@[simp] theorem run_nil (s : σ) : run step s [] = some s := rfl

@[simp] theorem run_cons (s : σ) (e : ε) (es : List ε) :
    run step s (e :: es) = (step s e).bind fun t ↦ run step t es := rfl

@[simp] theorem guarded_nil (s : σ) : Guarded step G s [] := trivial

@[simp] theorem guarded_cons (s : σ) (e : ε) (es : List ε) :
    Guarded step G s (e :: es) ↔ G s e ∧ ∀ t, step s e = some t → Guarded step G t es := Iff.rfl

theorem run_cons_eq_some {s u : σ} {e : ε} {es : List ε} :
    run step s (e :: es) = some u ↔ ∃ t, step s e = some t ∧ run step t es = some u := by
  rw [run_cons, Option.bind_eq_some_iff]

theorem run_append (s : σ) (es fs : List ε) :
    run step s (es ++ fs) = (run step s es).bind fun t ↦ run step t fs := by
  induction es generalizing s with
  | nil => rfl
  | cons e es ih =>
    rw [List.cons_append, run_cons, run_cons, Option.bind_assoc]
    exact Option.bind_congr fun t _ ↦ ih t

theorem run_append_eq_some {s u : σ} {es fs : List ε} :
    run step s (es ++ fs) = some u ↔
      ∃ t, run step s es = some t ∧ run step t fs = some u := by
  rw [run_append, Option.bind_eq_some_iff]

theorem run_concat_eq_some {s u : σ} {es : List ε} {e : ε} :
    run step s (es ++ [e]) = some u ↔ ∃ t, run step s es = some t ∧ step t e = some u := by
  rw [run_append_eq_some]
  simp only [run_cons, run_nil, Option.bind_fun_some]

/-- The last state of a concrete run, evaluated. -/
theorem of_run_eq_some {s t : σ} {es : List ε} (P : σ → Prop) [DecidablePred P]
    (hrun : run step s es = some t) (h : (run step s es).any (fun t ↦ decide (P t)) = true) :
    P t := by
  rw [hrun, Option.any_some] at h
  exact of_decide_eq_true h

/-- A concrete run, evaluated: it goes through to a state that satisfies `P`, hence `Q`. -/
theorem exists_run_of_any {s : σ} {es : List ε} (P : σ → Prop) [DecidablePred P] {Q : σ → Prop}
    (h : (run step s es).any (fun t ↦ decide (P t)) = true)
    (hQ : ∀ t, run step s es = some t → P t → Q t) : ∃ t, run step s es = some t ∧ Q t := by
  obtain ⟨t, ht, hP⟩ := (Option.any_eq_true _ _).mp h
  exact ⟨t, ht, hQ t ht (of_decide_eq_true hP)⟩

/-- **The invariant rule.** What one step preserves, every run preserves. -/
theorem run_invariant (I : σ → Prop)
    (hstep : ∀ {s e t}, I s → step s e = some t → I t) {s t : σ} {es : List ε}
    (hs : I s) (hrun : run step s es = some t) : I t := by
  induction es generalizing s with
  | nil =>
    rw [run_nil, Option.some.injEq] at hrun
    exact hrun ▸ hs
  | cons e es ih =>
    obtain ⟨u, hu, hrest⟩ := run_cons_eq_some.mp hrun
    exact ih (hstep hs hu) hrest

/-- **The guarded invariant rule.** What every step meeting the guard preserves, every run whose
steps all meet the guard preserves. -/
theorem guarded_invariant (I : σ → Prop)
    (hstep : ∀ {s e t}, I s → G s e → step s e = some t → I t) {s t : σ} {es : List ε}
    (hs : I s) (hguard : Guarded step G s es) (hrun : run step s es = some t) : I t := by
  induction es generalizing s with
  | nil =>
    rw [run_nil, Option.some.injEq] at hrun
    exact hrun ▸ hs
  | cons e es ih =>
    obtain ⟨u, hu, hrest⟩ := run_cons_eq_some.mp hrun
    exact ih (hstep hs hguard.1 hu) (hguard.2 u hu) hrest

/-- **A guard is exact** when a step that misses it leaves a mark and no later step removes it: a
run that ends unmarked has met the guard. -/
theorem guarded_of_unmarked (I Marked : σ → Prop)
    (hstep : ∀ {s e t}, I s → step s e = some t → I t)
    (hmark : ∀ {s e t}, I s → step s e = some t → ¬ G s e → Marked t)
    (hkeep : ∀ {s e t}, Marked s → step s e = some t → Marked t) {s t : σ} {es : List ε}
    (hs : I s) (hrun : run step s es = some t) (hunmarked : ¬ Marked t) : Guarded step G s es := by
  induction es generalizing s with
  | nil => exact trivial
  | cons e es ih =>
    obtain ⟨u, hu, hrest⟩ := run_cons_eq_some.mp hrun
    refine ⟨by_contra fun hmiss ↦ ?_, fun v hv ↦ ?_⟩
    · exact hunmarked (run_invariant Marked hkeep (hmark hs hu hmiss) hrest)
    · obtain rfl := Option.some.inj (hu.symm.trans hv)
      exact ih (hstep hs hu) hrest

/-! ## Termination -/

/-- No step that meets the guard is possible. -/
def Resting (step : σ → ε → Option σ) (G : σ → ε → Prop) (s : σ) : Prop :=
  ∀ e t, G s e → step s e ≠ some t

/-- **The termination rule.** When the steps that meet a guard lower a measure, a run of such steps
is no longer than the measure of the state it starts from. -/
theorem length_le_of_lowers (I : σ → Prop) (μ : σ → ℕ)
    (hstep : ∀ {s e t}, I s → G s e → step s e = some t → I t ∧ μ t < μ s) {s t : σ} {es : List ε}
    (hs : I s) (hguard : Guarded step G s es) (hrun : run step s es = some t) :
    es.length ≤ μ s := by
  induction es generalizing s with
  | nil => exact Nat.zero_le _
  | cons e es ih =>
    obtain ⟨u, hu, hrest⟩ := run_cons_eq_some.mp hrun
    obtain ⟨hI, hlt⟩ := hstep hs hguard.1 hu
    exact Nat.succ_le_of_lt (Nat.lt_of_le_of_lt (ih hI (hguard.2 u hu) hrest) hlt)

/-- Then some run of such steps comes to rest. -/
theorem exists_run_resting (I : σ → Prop) (μ : σ → ℕ)
    (hstep : ∀ {s e t}, I s → G s e → step s e = some t → I t ∧ μ t < μ s) {s : σ} (hs : I s) :
    ∃ es t, Guarded step G s es ∧ run step s es = some t ∧ Resting step G t := by
  induction hn : μ s using Nat.strongRecOn generalizing s with
  | ind n ih =>
    by_cases hrest : Resting step G s
    · exact ⟨[], s, trivial, rfl, hrest⟩
    · simp only [Resting, not_forall, not_not] at hrest
      obtain ⟨e, u, hguard, hu⟩ := hrest
      obtain ⟨hI, hlt⟩ := hstep hs hguard hu
      obtain ⟨es, t, hes, hrun, ht⟩ := ih (μ u) (hn ▸ hlt) hI rfl
      refine ⟨e :: es, t, ⟨hguard, fun v hv ↦ ?_⟩, run_cons_eq_some.mpr ⟨u, hu, hrun⟩, ht⟩
      obtain rfl := Option.some.inj (hu.symm.trans hv)
      exact hes

/-! ## Provenance -/

theorem Happened.exists {s : σ} {es : List ε} (h : Happened step G s es) : ∃ t e, G t e := by
  induction es generalizing s with
  | nil => cases h
  | cons e es ih =>
    rcases h with h | ⟨t, -, h⟩
    · exact ⟨s, e, h⟩
    · exact ih h

/-- **The guarded provenance rule.** It is enough that the steps that meet the guard justify what is
new, when all steps of the run do. -/
theorem guarded_happened_invariant {α : Type*} {A : σ → ε → Prop} (G : α → σ → ε → Prop)
    (I : (α → Prop) → σ → Prop)
    (hstep : ∀ {P : α → Prop} {s e t}, I P s → A s e → step s e = some t →
      I (fun a ↦ P a ∨ G a s e) t)
    {s t : σ} {es : List ε} (hs : I (fun _ ↦ False) s) (hguard : Guarded step A s es)
    (hrun : run step s es = some t) : I (fun a ↦ Happened step (G a) s es) t := by
  have hgeneral : ∀ (es : List ε) (s : σ) (P : α → Prop), I P s → Guarded step A s es →
      run step s es = some t → I (fun a ↦ P a ∨ Happened step (G a) s es) t := by
    intro es
    induction es with
    | nil =>
      intro s P hs _ hrun
      rw [run_nil, Option.some.injEq] at hrun
      simpa only [Happened, or_false, hrun] using hs
    | cons e es ih =>
      intro s P hs hguard hrun
      obtain ⟨u, hu, hrest⟩ := run_cons_eq_some.mp hrun
      simpa only [Happened, hu, Option.some.injEq, exists_eq_left', or_assoc] using
        ih u _ (hstep hs hguard.1 hu) (hguard.2 u hu) hrest
  simpa only [false_or] using hgeneral es s _ hs hguard hrun

/-- **The provenance rule.** An invariant may be about things that are justified by what has
happened so far, when a step justifies the things that are new. -/
theorem happened_invariant {α : Type*} (G : α → σ → ε → Prop) (I : (α → Prop) → σ → Prop)
    (hstep : ∀ {P : α → Prop} {s e t}, I P s → step s e = some t → I (fun a ↦ P a ∨ G a s e) t)
    {s t : σ} {es : List ε} (hs : I (fun _ ↦ False) s) (hrun : run step s es = some t) :
    I (fun a ↦ Happened step (G a) s es) t := by
  have hguard : ∀ (es : List ε) (s : σ), Guarded step (fun _ _ ↦ True) s es := by
    intro es
    induction es with
    | nil => exact fun _ ↦ trivial
    | cons e es ih => exact fun s ↦ ⟨trivial, fun t _ ↦ ih t⟩
  exact guarded_happened_invariant G I (fun h _ ↦ hstep h) hs (hguard es s) hrun

/-- **The mark rule.** When a step marks the state exactly if it is of a kind, and marks stay, the
mark at the end tells whether there has been such a step. -/
theorem marked_iff_happened (I Marked : σ → Prop)
    (hstep : ∀ {s e t}, I s → step s e = some t → I t)
    (hmark : ∀ {s e t}, I s → step s e = some t → (Marked t ↔ Marked s ∨ G s e)) {s t : σ}
    {es : List ε} (hs : I s) (hrun : run step s es = some t) :
    Marked t ↔ Marked s ∨ Happened step G s es := by
  induction es generalizing s with
  | nil =>
    rw [run_nil, Option.some.injEq] at hrun
    rw [hrun, Happened, or_false]
  | cons e es ih =>
    obtain ⟨u, hu, hrest⟩ := run_cons_eq_some.mp hrun
    rw [ih (hstep hs hu) hrest, hmark hs hu, Happened, hu, or_assoc]
    simp only [Option.some.injEq, exists_eq_left']

/-! ## Traces -/

section Trace

variable {emit : σ → ε → List ω}

theorem trace_cons_of_eq_some {s t : σ} {e : ε} (h : step s e = some t) (es : List ε) :
    trace step emit s (e :: es) = emit s e ++ trace step emit t es := by
  rw [trace, h, Option.elim_some]

theorem trace_append {s t : σ} {es : List ε} (h : run step s es = some t) (fs : List ε) :
    trace step emit s (es ++ fs) = trace step emit s es ++ trace step emit t fs := by
  induction es generalizing s with
  | nil =>
    cases h
    rfl
  | cons e es ih =>
    obtain ⟨u, hu, hrest⟩ := run_cons_eq_some.mp h
    rw [List.cons_append, trace_cons_of_eq_some hu, trace_cons_of_eq_some hu, ih hrest,
      List.append_assoc]

theorem flatMap_trace {α : Type*} (f : ω → List α) (s : σ) (es : List ε) :
    (trace step emit s es).flatMap f = trace step (fun s e ↦ (emit s e).flatMap f) s es := by
  induction es generalizing s with
  | nil => rfl
  | cons e es ih =>
    rw [trace, trace, List.flatMap_append]
    cases step s e with
    | none => rfl
    | some t => exact congrArg _ (ih t)

/-- What steps of a kind never emit, no run of such steps emits. -/
theorem trace_eq_nil_of_guarded (h : ∀ {s e}, G s e → emit s e = []) {s : σ} {es : List ε}
    (hguard : Guarded step G s es) : trace step emit s es = [] := by
  induction es generalizing s with
  | nil => rfl
  | cons e es ih =>
    rw [trace, h hguard.1, List.nil_append]
    cases hstep : step s e with
    | none => rfl
    | some t => exact ih (hguard.2 t hstep)

/-- **The trace rule.** An invariant may speak of all that has been emitted, when a step keeps it
with what the step emits. -/
theorem trace_invariant (I : List ω → σ → Prop)
    (hstep : ∀ {w s e t}, I w s → G s e → step s e = some t → I (w ++ emit s e) t) {s t : σ}
    {es : List ε} (hs : I [] s) (hguard : Guarded step G s es) (hrun : run step s es = some t) :
    I (trace step emit s es) t := by
  have hgeneral : ∀ (es : List ε) (s : σ) (w : List ω), I w s → Guarded step G s es →
      run step s es = some t → I (w ++ trace step emit s es) t := by
    intro es
    induction es with
    | nil =>
      intro s w hs _ hrun
      rw [run_nil, Option.some.injEq] at hrun
      rwa [trace, List.append_nil, ← hrun]
    | cons e es ih =>
      intro s w hs hguard hrun
      obtain ⟨u, hu, hrest⟩ := run_cons_eq_some.mp hrun
      rw [trace_cons_of_eq_some hu, ← List.append_assoc]
      exact ih u _ (hstep hs hguard.1 hu) (hguard.2 u hu) hrest
  exact hgeneral es s [] hs hguard hrun

end Trace

/-- A guard that can be decided at every step can be decided along a run. -/
instance decidableGuarded [∀ s e, Decidable (G s e)] (s : σ) :
    (es : List ε) → Decidable (Guarded step G s es)
  | [] => isTrue trivial
  | e :: es =>
    match hstep : step s e with
    | none =>
      decidable_of_iff (G s e) ⟨fun h ↦ ⟨h, fun t ht ↦ by rw [hstep] at ht; cases ht⟩, And.left⟩
    | some t =>
      have := decidableGuarded t es
      decidable_of_iff (G s e ∧ Guarded step G t es)
        ⟨fun h ↦ ⟨h.1, fun u hu ↦ Option.some.inj (hstep.symm.trans hu) ▸ h.2⟩,
          fun h ↦ ⟨h.1, h.2 t hstep⟩⟩

/-- So can whether there has been a step of a kind. -/
instance decidableHappened [∀ s e, Decidable (G s e)] (s : σ) :
    (es : List ε) → Decidable (Happened step G s es)
  | [] => isFalse id
  | e :: es =>
    match hstep : step s e with
    | none =>
      decidable_of_iff (G s e) ⟨Or.inl, fun h ↦ h.resolve_right fun hlater ↦ by
        obtain ⟨t, ht, -⟩ := hlater
        rw [hstep] at ht
        cases ht⟩
    | some t =>
      have := decidableHappened t es
      decidable_of_iff (G s e ∨ Happened step G t es)
        ⟨fun h ↦ h.imp_right fun hlater ↦ ⟨t, hstep, hlater⟩, fun h ↦ h.imp_right fun hlater ↦ by
          obtain ⟨u, hu, hlater⟩ := hlater
          obtain rfl := Option.some.inj (hstep.symm.trans hu)
          exact hlater⟩

theorem Guarded.mono {G' : σ → ε → Prop} (h : ∀ s e, G s e → G' s e) {s : σ} {es : List ε}
    (hguard : Guarded step G s es) : Guarded step G' s es := by
  induction es generalizing s with
  | nil => exact trivial
  | cons e es ih => exact ⟨h s e hguard.1, fun t ht ↦ ih (hguard.2 t ht)⟩

/-- A guard that only looks at the event holds of a run when it holds of every event. -/
theorem guarded_of_forall (P : ε → Prop) {es : List ε} (h : ∀ e ∈ es, P e) (s : σ) :
    Guarded step (fun _ e ↦ P e) s es := by
  induction es generalizing s with
  | nil => exact trivial
  | cons e es ih =>
    exact ⟨h e List.mem_cons_self, fun t _ ↦ ih (fun f hf ↦ h f (List.mem_cons_of_mem _ hf)) t⟩

theorem Guarded.and {G' : σ → ε → Prop} {s : σ} {es : List ε} (h : Guarded step G s es)
    (h' : Guarded step G' s es) : Guarded step (fun s e ↦ G s e ∧ G' s e) s es := by
  induction es generalizing s with
  | nil => exact trivial
  | cons e es ih => exact ⟨⟨h.1, h'.1⟩, fun t ht ↦ ih (h.2 t ht) (h'.2 t ht)⟩

theorem guarded_append {s : σ} {es fs : List ε} :
    Guarded step G s (es ++ fs) ↔
      Guarded step G s es ∧ ∀ t, run step s es = some t → Guarded step G t fs := by
  induction es generalizing s with
  | nil => simp
  | cons e es ih =>
    rw [List.cons_append, guarded_cons, guarded_cons, and_assoc]
    refine and_congr_right fun _ ↦ ⟨fun h ↦ ⟨fun t ht ↦ (ih.mp (h t ht)).1, ?_⟩, ?_⟩
    · intro u hu
      obtain ⟨t, ht, hrest⟩ := run_cons_eq_some.mp hu
      exact (ih.mp (h t ht)).2 u hrest
    · rintro ⟨h, h'⟩ t ht
      exact ih.mpr ⟨h t ht, fun u hu ↦ h' u (run_cons_eq_some.mpr ⟨t, ht, hu⟩)⟩

end Execution
