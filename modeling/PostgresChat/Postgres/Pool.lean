import Mathlib.Data.List.Basic
import PostgresChat.Lib.Execution
import PostgresChat.Lib.Lists

/-!
# The pool behind the statement timeout

`wrapPoolConnectWithStatementTimeout` puts a `SET statement_timeout` between the checkout of a
client and its hand-over. When the SET fails the checkout ends with the error, and the client stays
checked out: the promise form rejects with the error alone, and the callback form passes client and
`done` along with the error, which `pool.query` does not look at. Such a client is counted by the
pool, and nobody uses it (`pool_accounted_iff`).

Of pg-pool the model has what the wrapper rests on: a client is idle or out, and at most `max`
clients are connected; an idle one or a new one is handed out; a client is out until it is released.
-/

namespace PostgresChat

open Execution

/-- How a checkout is made: `pool.connect()`, `pool.connect(cb)`, or by `pool.query`, which calls
`this.connect(cb)` with a callback of its own. -/
inductive CheckoutForm where
  | promise
  | callback
  | query
  deriving DecidableEq

/-- How far a checkout has come. -/
inductive CheckoutState where
  /-- `originalConnect` has not answered. -/
  | waiting
  /-- The SET is under way on client `i`. -/
  | setting (i : ℕ)
  /-- The client has been handed over. -/
  | received (i : ℕ)
  /-- There was no client. -/
  | refused
  /-- The SET on client `i` has failed. -/
  | failed (i : ℕ)
  | released
  deriving DecidableEq

/-- The client that a checkout has taken and not released, whoever knows of it. -/
def CheckoutState.client? : CheckoutState → Option ℕ
  | .setting i | .received i | .failed i => some i
  | .waiting | .refused | .released => none

/-- A checkout, known by its position in `Pool.checkouts`. -/
structure Checkout where
  form : CheckoutForm
  state : CheckoutState
  deriving DecidableEq

/-- What the caller is given. -/
structure Reply where
  error : Bool
  client : Option ℕ
  deriving DecidableEq

/-- What the caller of a checkout has been given. -/
def Checkout.reply (c : Checkout) : Option Reply :=
  match c.form, c.state with
  | _, .received i => some ⟨false, some i⟩
  | _, .refused | .promise, .failed _ => some ⟨true, none⟩
  | .callback, .failed i | .query, .failed i => some ⟨true, some i⟩
  | _, _ => none

/-- The client that the caller may release: one it has been given. `pool.query` releases nothing
when there is an error. -/
def Checkout.releasable (c : Checkout) : Option ℕ :=
  c.reply.bind fun reply ↦ if c.form = .query ∧ reply.error then none else reply.client

/-- A client, as pg-pool accounts for it. -/
inductive PooledClient where
  | idle
  | out
  | removed
  deriving DecidableEq

/-- The clients connected so far and the checkouts made so far. -/
structure Pool where
  /-- `PG_POOL_MAX`. -/
  max : ℕ
  clients : List PooledClient := []
  checkouts : List Checkout := []
  deriving DecidableEq

/-- What can happen next. -/
inductive PoolEvent where
  | connect (form : CheckoutForm)
  /-- The pool gives the idle client `i` to checkout `k`. -/
  | handOut (k i : ℕ)
  /-- The pool connects a client for checkout `k`. -/
  | openClient (k : ℕ)
  /-- Connecting fails, or takes too long. -/
  | refuse (k : ℕ)
  /-- The SET of checkout `k` settles. -/
  | setSettled (k : ℕ) (ok : Bool)
  /-- The caller of checkout `k` releases the client; it is removed when it is broken. -/
  | release (k : ℕ) (broken : Bool)
  /-- The idle client `i` times out. -/
  | remove (i : ℕ)
  deriving DecidableEq

namespace Pool

/-- The clients that are connected. -/
def connected (p : Pool) : ℕ := p.clients.countP (· ≠ .removed)

def setCheckout (p : Pool) (k : ℕ) (c : Checkout) (state : CheckoutState) : List Checkout :=
  p.checkouts.set k { c with state := state }

/-- The step of an event, `none` when it cannot happen. -/
def step (p : Pool) : PoolEvent → Option Pool
  | .connect form => some { p with checkouts := p.checkouts ++ [⟨form, .waiting⟩] }
  | .handOut k i => do
    let c ← p.checkouts[k]?
    guard (c.state = .waiting ∧ p.clients[i]? = some .idle)
    return { p with clients := p.clients.set i .out, checkouts := p.setCheckout k c (.setting i) }
  | .openClient k => do
    let c ← p.checkouts[k]?
    guard (c.state = .waiting ∧ p.connected < p.max)
    return { p with
      clients := p.clients ++ [.out]
      checkouts := p.setCheckout k c (.setting p.clients.length) }
  | .refuse k => do
    let c ← p.checkouts[k]?
    guard (c.state = .waiting)
    return { p with checkouts := p.setCheckout k c .refused }
  | .setSettled k ok => do
    let c ← p.checkouts[k]?
    match c.state with
    | .setting i =>
      return { p with checkouts := p.setCheckout k c (if ok then .received i else .failed i) }
    | _ => none
  | .release k broken => do
    let c ← p.checkouts[k]?
    let i ← c.releasable
    return { p with
      clients := p.clients.set i (if broken then .removed else .idle)
      checkouts := p.setCheckout k c .released }
  | .remove i => do
    guard (p.clients[i]? = some .idle)
    return { p with clients := p.clients.set i .removed }

/-! ## Whose a client is -/

/-- Checkout `k` has taken client `i` and not released it. -/
def Owns (p : Pool) (k i : ℕ) : Prop :=
  ∃ c, p.checkouts[k]? = some c ∧ c.state.client? = some i

/-- The invariant. The clients that are out are owned one by one. -/
structure Owned (p : Pool) : Prop where
  out : ∀ k i, p.Owns k i → p.clients[i]? = some .out
  one : ∀ k k' i, p.Owns k i → p.Owns k' i → k = k'
  owner : ∀ i, p.clients[i]? = some .out → ∃ k, p.Owns k i
  count : p.clients.countP (· = .out) = p.checkouts.countP (·.state.client?.isSome)
  fits : p.connected ≤ p.max

variable {p q : Pool} {e : PoolEvent} {k i : ℕ} {c : Checkout} {state : CheckoutState}

theorem owns_set (hget : p.checkouts[k]? = some c) {clients : List PooledClient} {k' i' : ℕ} :
    Owns { p with clients := clients, checkouts := p.setCheckout k c state } k' i' ↔
      k = k' ∧ state.client? = some i' ∨ k ≠ k' ∧ p.Owns k' i' := by
  rw [Owns, setCheckout]
  by_cases hk : k = k'
  · subst hk
    rw [List.getElem?_set_self (List.getElem?_eq_some_iff.mp hget).1]
    simp
  · rw [List.getElem?_set_ne hk]
    simp [hk, Owns]

theorem countP_setCheckout (hget : p.checkouts[k]? = some c) (state : CheckoutState) :
    (p.setCheckout k c state).countP (·.state.client?.isSome) + c.state.client?.isSome.toNat =
      p.checkouts.countP (·.state.client?.isSome) + state.client?.isSome.toNat :=
  Lists.countP_set_add (fun c : Checkout ↦ c.state.client?.isSome) hget

/-- Checkout `k`, which has no client, takes client `i`, which was not out. -/
theorem Owned.take (h : p.Owned) (hget : p.checkouts[k]? = some c) (hnone : c.state.client? = none)
    {clients : List PooledClient} (hfree : p.clients[i]? ≠ some .out)
    (hclients : ∀ j, clients[j]? = some .out ↔ j = i ∨ p.clients[j]? = some .out)
    (hcount : clients.countP (· = .out) = p.clients.countP (· = .out) + 1)
    (hfits : clients.countP (· ≠ .removed) ≤ p.max) :
    Owned { p with clients := clients, checkouts := p.setCheckout k c (.setting i) } where
  out k' i' howns := by
    rcases (owns_set hget).mp howns with ⟨-, heq⟩ | ⟨-, howns⟩
    · exact (hclients i').mpr (Or.inl (Option.some.inj heq).symm)
    · exact (hclients i').mpr (Or.inr (h.out k' i' howns))
  one k₁ k₂ j h₁ h₂ := by
    rcases (owns_set hget).mp h₁ with ⟨rfl, heq₁⟩ | ⟨hne₁, h₁⟩ <;>
      rcases (owns_set hget).mp h₂ with ⟨rfl, heq₂⟩ | ⟨hne₂, h₂⟩
    · rfl
    · cases heq₁
      exact absurd (h.out _ _ h₂) hfree
    · cases heq₂
      exact absurd (h.out _ _ h₁) hfree
    · exact h.one _ _ _ h₁ h₂
  owner j hout := by
    rcases (hclients j).mp hout with rfl | hout
    · exact ⟨k, (owns_set hget).mpr (Or.inl ⟨rfl, rfl⟩)⟩
    · obtain ⟨k', howns⟩ := h.owner j hout
      refine ⟨k', (owns_set hget).mpr (Or.inr ⟨?_, howns⟩)⟩
      rintro rfl
      obtain ⟨c', hc', hclient⟩ := howns
      cases hget.symm.trans hc'
      rw [hnone] at hclient
      cases hclient
  count := by
    have hset := countP_setCheckout hget (.setting i)
    rw [hnone] at hset
    rw [hcount, h.count]
    exact hset.symm
  fits := hfits

/-- Checkout `k` goes on with the client that it has, or without one as before. -/
theorem Owned.keep (h : p.Owned) (hget : p.checkouts[k]? = some c)
    (hsame : state.client? = c.state.client?) :
    Owned { p with checkouts := p.setCheckout k c state } := by
  have howns : ∀ k' i', Owns { p with checkouts := p.setCheckout k c state } k' i' ↔
      p.Owns k' i' := by
    intro k' i'
    rw [owns_set hget, hsame]
    constructor
    · rintro (⟨rfl, hclient⟩ | ⟨-, howns⟩)
      · exact ⟨c, hget, hclient⟩
      · exact howns
    · intro howns
      by_cases hk : k = k'
      · subst hk
        obtain ⟨c', hc', hclient⟩ := howns
        cases hget.symm.trans hc'
        exact Or.inl ⟨rfl, hclient⟩
      · exact Or.inr ⟨hk, howns⟩
  refine ⟨fun k' i' h' ↦ h.out k' i' ((howns _ _).mp h'),
    fun k₁ k₂ j h₁ h₂ ↦ h.one _ _ _ ((howns _ _).mp h₁) ((howns _ _).mp h₂), ?_, ?_, h.fits⟩
  · intro j hout
    obtain ⟨k', h'⟩ := h.owner j hout
    exact ⟨k', (howns _ _).mpr h'⟩
  · have hset := countP_setCheckout hget state
    rw [hsame] at hset
    exact h.count.trans (Nat.add_right_cancel hset).symm

/-- Checkout `k` gives its client back. -/
theorem Owned.give (h : p.Owned) (hget : p.checkouts[k]? = some c)
    (hclient : c.state.client? = some i) {client : PooledClient} (hnot : client ≠ .out) :
    Owned { p with
      clients := p.clients.set i client, checkouts := p.setCheckout k c .released } := by
  have hout : p.clients[i]? = some .out := h.out k i ⟨c, hget, hclient⟩
  have hclients : ∀ j, (p.clients.set i client)[j]? = some .out ↔
      j ≠ i ∧ p.clients[j]? = some .out := by
    intro j
    by_cases hj : i = j
    · subst hj
      rw [List.getElem?_set_self (List.getElem?_eq_some_iff.mp hout).1]
      simp [hnot]
    · rw [List.getElem?_set_ne hj]
      simp [Ne.symm hj]
  refine ⟨fun k' i' howns ↦ ?_, fun k₁ k₂ j h₁ h₂ ↦ ?_, fun j hj ↦ ?_, ?_, ?_⟩
  · rcases (owns_set hget).mp howns with ⟨-, heq⟩ | ⟨hne, howns⟩
    · cases heq
    · refine (hclients i').mpr ⟨fun heq ↦ hne ?_, h.out k' i' howns⟩
      exact h.one _ _ _ ⟨c, hget, hclient⟩ (heq ▸ howns)
  · rcases (owns_set hget).mp h₁ with ⟨-, heq⟩ | ⟨-, h₁⟩
    · cases heq
    · rcases (owns_set hget).mp h₂ with ⟨-, heq⟩ | ⟨-, h₂⟩
      · cases heq
      · exact h.one _ _ _ h₁ h₂
  · obtain ⟨hne, hj⟩ := (hclients j).mp hj
    obtain ⟨k', howns⟩ := h.owner j hj
    refine ⟨k', (owns_set hget).mpr (Or.inr ⟨?_, howns⟩)⟩
    rintro rfl
    obtain ⟨c', hc', hclient'⟩ := howns
    cases hget.symm.trans hc'
    rw [hclient] at hclient'
    exact hne (Option.some.inj hclient').symm
  · have hset := countP_setCheckout hget .released
    have hset' := Lists.countP_set_add (b := client) (fun cl : PooledClient ↦ decide (cl = .out))
      hout
    rw [hclient] at hset
    rw [decide_eq_true rfl, decide_eq_false hnot, h.count] at hset'
    exact Nat.add_right_cancel (hset'.trans hset.symm)
  · have hset := Lists.countP_set_add (b := client) (fun cl : PooledClient ↦ decide (cl ≠ .removed))
      hout
    have hle : (decide (client ≠ .removed)).toNat ≤ 1 := Bool.toNat_le _
    have hfits := h.fits
    rw [connected] at hfits ⊢
    simp only [ne_eq, reduceCtorEq, not_false_eq_true, decide_true, Bool.toNat_true] at hset hle
    simp only [ne_eq] at hfits ⊢
    omega

/-- What a caller may release is a client that its checkout has taken. -/
theorem client?_of_releasable (h : c.releasable = some i) : c.state.client? = some i := by
  obtain ⟨form, state⟩ := c
  cases state <;> cases form <;>
    simp_all [Checkout.releasable, Checkout.reply, CheckoutState.client?]

theorem Owned.step (h : p.Owned) (hstep : p.step e = some q) : q.Owned := by
  cases e with
  | connect form =>
    cases hstep
    -- A call that waits owns nothing.
    have howns : ∀ k i, Owns { p with checkouts := p.checkouts ++ [⟨form, .waiting⟩] } k i ↔
        p.Owns k i := by
      intro k i
      simp only [Owns, Lists.getElem?_concat_eq_some]
      constructor
      · rintro ⟨c, hget | ⟨-, rfl⟩, hclient⟩
        · exact ⟨c, hget, hclient⟩
        · cases hclient
      · rintro ⟨c, hget, hclient⟩
        exact ⟨c, Or.inl hget, hclient⟩
    refine ⟨fun k i h' ↦ h.out k i ((howns k i).mp h'),
      fun k k' i h₁ h₂ ↦ h.one k k' i ((howns k i).mp h₁) ((howns k' i).mp h₂), ?_, ?_, h.fits⟩
    · intro i hout
      obtain ⟨k, hk⟩ := h.owner i hout
      exact ⟨k, (howns k i).mpr hk⟩
    · rw [List.countP_append]
      exact h.count
  | handOut k i =>
    simp only [Pool.step, Option.bind_eq_bind, Option.bind_eq_some_iff, Option.guard_eq_some',
      Option.pure_def, Option.some.injEq] at hstep
    obtain ⟨c, hget, -, ⟨hwaiting, hidle⟩, rfl⟩ := hstep
    have hcount := Lists.countP_set_add (b := .out) (fun cl : PooledClient ↦ decide (cl = .out))
      hidle
    have hfits := Lists.countP_set_add (b := .out) (fun cl : PooledClient ↦ decide (cl ≠ .removed))
      hidle
    -- The idle client goes from the pool to the call.
    refine h.take hget (by rw [hwaiting]; rfl) (by rw [hidle]; simp) (fun j ↦ ?_) hcount ?_
    · by_cases hj : i = j
      · subst hj
        rw [List.getElem?_set_self (List.getElem?_eq_some_iff.mp hidle).1]
        simp
      · rw [List.getElem?_set_ne hj]
        simp [Ne.symm hj]
    · exact Nat.le_trans (Nat.le_of_eq (Nat.add_right_cancel hfits)) h.fits
  | openClient k =>
    simp only [Pool.step, Option.bind_eq_bind, Option.bind_eq_some_iff, Option.guard_eq_some',
      Option.pure_def, Option.some.injEq] at hstep
    obtain ⟨c, hget, -, ⟨hwaiting, hlt⟩, rfl⟩ := hstep
    refine h.take hget (by rw [hwaiting]; rfl) (by simp)
      (fun j ↦ ?_) List.countP_append ?_
    · rw [Lists.getElem?_concat_eq_some, or_comm]
      simp
    · rw [List.countP_append]
      exact hlt
  | refuse k =>
    simp only [Pool.step, Option.bind_eq_bind, Option.bind_eq_some_iff, Option.guard_eq_some',
      Option.pure_def, Option.some.injEq] at hstep
    obtain ⟨c, hget, -, hwaiting, rfl⟩ := hstep
    -- The call is refused before it had a client.
    exact h.keep hget (by rw [hwaiting]; rfl)
  | setSettled k ok =>
    obtain ⟨c, hget, hstep⟩ := Option.bind_eq_some_iff.mp hstep
    split at hstep
    case h_2 => cases hstep
    case h_1 i hsetting =>
      cases hstep
      refine h.keep hget ?_
      rw [hsetting]
      cases ok <;> rfl
  | release k broken =>
    simp only [Pool.step, Option.bind_eq_bind, Option.bind_eq_some_iff, Option.pure_def,
      Option.some.injEq] at hstep
    obtain ⟨c, hget, i, hreleasable, rfl⟩ := hstep
    exact h.give hget (client?_of_releasable hreleasable) (by cases broken <;> simp)
  | remove i =>
    simp only [Pool.step, Option.bind_eq_bind, Option.bind_eq_some_iff, Option.guard_eq_some',
      Option.pure_def, Option.some.injEq] at hstep
    obtain ⟨-, hidle, rfl⟩ := hstep
    -- Only an idle client is removed, so nobody owns it.
    have hclients : ∀ j : ℕ, (p.clients.set i PooledClient.removed)[j]? = some PooledClient.out ↔
        p.clients[j]? = some PooledClient.out := by
      intro j
      by_cases hj : i = j
      · subst hj
        rw [List.getElem?_set_self (List.getElem?_eq_some_iff.mp hidle).1, hidle]
        simp
      · rw [List.getElem?_set_ne hj]
    have hcount := Lists.countP_set_add (b := .removed) (fun cl : PooledClient ↦ decide (cl = .out))
      hidle
    have hfits := Lists.countP_set_add (b := .removed)
      (fun cl : PooledClient ↦ decide (cl ≠ .removed)) hidle
    refine ⟨fun k j howns ↦ (hclients j).mpr (h.out k j howns), h.one,
      fun j hout ↦ h.owner j ((hclients j).mp hout), ?_, ?_⟩
    · exact (Nat.add_right_cancel hcount).trans h.count
    · exact Nat.le_trans (Nat.le_of_add_right_le (Nat.le_of_eq hfits)) h.fits

theorem owned_start (max : ℕ) : Owned { max := max } where
  out := by rintro _ _ ⟨_, ⟨⟩, -⟩
  one := by rintro _ _ _ ⟨_, ⟨⟩, -⟩
  owner := by rintro _ ⟨⟩
  count := rfl
  fits := Nat.zero_le _

theorem owned {max : ℕ} {es : List PoolEvent} (hrun : run Pool.step { max := max } es = some p) :
    p.Owned :=
  run_invariant Owned (fun h hstep ↦ h.step hstep) (owned_start max) hrun

/-! ## No client is lost -/

/-- The checkout is in the middle of its SET on the client, or its caller has received the client
without an error. -/
def Uses (c : Checkout) (i : ℕ) : Prop := c.state = .setting i ∨ c.reply = some ⟨false, some i⟩

instance (c : Checkout) (i : ℕ) : Decidable (Uses c i) := by
  unfold Uses
  infer_instance

/-- The clients that the pool can still hand out, idle ones and new ones. -/
def available (p : Pool) : ℕ := p.max - p.clients.countP (· = .out)

/-- The checkouts that use a client. -/
def inUse (p : Pool) : ℕ := p.checkouts.countP fun c ↦ c.state.client?.any fun i ↦ Uses c i

/-- Every client that is out is used, and all the others can be handed out. -/
structure Accounted (p : Pool) : Prop where
  used : ∀ i, p.clients[i]? = some .out → ∃ c ∈ p.checkouts, Uses c i
  capacity : p.available + p.inUse = p.max

/-- The SET of a checkout has failed, and its client has not been released since. -/
def HasFailed (p : Pool) : Prop := ∃ c ∈ p.checkouts, ∃ i, c.state = .failed i

theorem uses_iff : Uses c i ↔ c.state.client? = some i ∧ c.state ≠ .failed i := by
  obtain ⟨form, state⟩ := c
  cases state <;> cases form <;> simp [Uses, Checkout.reply, CheckoutState.client?]

/-- The checkouts that own a client and do not use it are those whose SET has failed. -/
theorem any_uses_eq (hnot : ∀ j, c.state ≠ .failed j) :
    (c.state.client?.any fun i ↦ Uses c i) = c.state.client?.isSome := by
  cases hclient : c.state.client? with
  | none => rfl
  | some i => exact decide_eq_true (uses_iff.mpr ⟨hclient, hnot i⟩)

/-- In a state, clients are accounted for exactly when no checkout is left with a failed SET. -/
theorem Owned.accounted_iff (h : p.Owned) : p.Accounted ↔ ¬ p.HasFailed := by
  constructor
  · rintro haccounted ⟨c, hc, i, hfailed⟩
    obtain ⟨k, hk⟩ := List.mem_iff_getElem?.mp hc
    have howns : p.Owns k i := ⟨c, hk, by rw [hfailed]; rfl⟩
    obtain ⟨c', hc', huses⟩ := haccounted.used i (h.out k i howns)
    obtain ⟨k', hk'⟩ := List.mem_iff_getElem?.mp hc'
    obtain ⟨hclient, hne⟩ := uses_iff.mp huses
    cases h.one k k' i howns ⟨c', hk', hclient⟩
    cases hk.symm.trans hk'
    exact hne hfailed
  · intro hnone
    have hnot : ∀ c ∈ p.checkouts, ∀ j, c.state ≠ .failed j :=
      fun c hc j hfailed ↦ hnone ⟨c, hc, j, hfailed⟩
    constructor
    · intro i hout
      obtain ⟨k, c, hk, hclient⟩ := h.owner i hout
      have hc := List.mem_of_getElem? hk
      exact ⟨c, hc, uses_iff.mpr ⟨hclient, hnot c hc i⟩⟩
    · have huse : p.inUse = p.clients.countP (· = .out) := by
        rw [h.count, inUse]
        exact List.countP_congr fun c hc ↦ by rw [any_uses_eq (hnot c hc)]
      have hout : p.clients.countP (· = .out) ≤ p.connected := by
        refine List.countP_mono_left fun client _ hclient ↦ ?_
        rw [of_decide_eq_true hclient]
        rfl
      rw [available, huse]
      exact Nat.sub_add_cancel (Nat.le_trans hout h.fits)

/-- A SET that fails leaves its checkout with the client. -/
theorem hasFailed_of_step (hstep : p.step (.setSettled k false) = some q) : q.HasFailed := by
  obtain ⟨c, hget, hstep⟩ := Option.bind_eq_some_iff.mp hstep
  split at hstep
  case h_2 => cases hstep
  case h_1 i hsetting =>
    cases hstep
    exact ⟨_, List.mem_of_getElem? (List.getElem?_set_self (List.getElem?_eq_some_iff.mp hget).1),
      i, rfl⟩

/-- Only a SET that fails leaves a checkout so. -/
theorem hasFailed_of_hasFailed_step (hne : ∀ k, e ≠ .setSettled k false)
    (hstep : p.step e = some q) (h : q.HasFailed) : p.HasFailed := by
  have hset : ∀ {k c state}, (∀ i, state ≠ CheckoutState.failed i) →
      (∃ c' ∈ p.setCheckout k c state, ∃ i, c'.state = .failed i) → p.HasFailed := by
    rintro k c state hstate ⟨c', hc', i, hfailed⟩
    rcases List.mem_or_eq_of_mem_set hc' with hc' | rfl
    · exact ⟨c', hc', i, hfailed⟩
    · exact absurd hfailed (hstate i)
  cases e with
  | connect form =>
    cases hstep
    obtain ⟨c, hc, i, hfailed⟩ := h
    rcases List.mem_append.mp hc with hc | hc
    · exact ⟨c, hc, i, hfailed⟩
    · rw [List.mem_singleton.mp hc] at hfailed
      cases hfailed
  | handOut | openClient | refuse =>
    simp only [Pool.step, Option.bind_eq_bind, Option.bind_eq_some_iff, Option.pure_def,
      Option.some.injEq] at hstep
    obtain ⟨c, -, -, -, rfl⟩ := hstep
    exact hset (by rintro _ ⟨⟩) h
  | setSettled k ok =>
    obtain ⟨c, hget, hstep⟩ := Option.bind_eq_some_iff.mp hstep
    split at hstep
    case h_2 => cases hstep
    case h_1 i hsetting =>
      cases hstep
      cases ok with
      | false => exact absurd rfl (hne k)
      | true => exact hset (by rintro _ ⟨⟩) h
  | release k broken =>
    simp only [Pool.step, Option.bind_eq_bind, Option.bind_eq_some_iff, Option.pure_def,
      Option.some.injEq] at hstep
    obtain ⟨c, -, i, -, rfl⟩ := hstep
    exact hset (by rintro _ ⟨⟩) h
  | remove i =>
    simp only [Pool.step, Option.bind_eq_bind, Option.bind_eq_some_iff, Option.pure_def,
      Option.some.injEq] at hstep
    obtain ⟨-, -, rfl⟩ := hstep
    exact h

/-- The pool is accounted for in all states of a run exactly when no SET fails in the run; and in a
state exactly when no checkout whose SET has failed still has its client. -/
theorem pool_accounted_iff {max : ℕ} {es : List PoolEvent}
    (hrun : run Pool.step { max := max } es = some p) :
    ((∀ pre q, pre <+: es → run Pool.step { max := max } pre = some q → q.Accounted) ↔
      ∀ k, .setSettled k false ∉ es) ∧
    (p.Accounted ↔ ¬ p.HasFailed) := by
  refine ⟨⟨fun h k hmem ↦ ?_, ?_⟩, (owned hrun).accounted_iff⟩
  · obtain ⟨pre, post, rfl⟩ := List.append_of_mem hmem
    rw [List.append_cons, run_append_eq_some] at hrun
    obtain ⟨q, hq, -⟩ := hrun
    have haccounted := h _ q ⟨post, by rw [List.append_assoc]; rfl⟩ hq
    obtain ⟨q', -, hstep⟩ := run_concat_eq_some.mp hq
    exact (owned hq).accounted_iff.mp haccounted (hasFailed_of_step hstep)
  · rintro h pre q ⟨post, rfl⟩ hq
    have hnone : ¬ q.HasFailed := by
      have hguard :
          Guarded Pool.step (fun _ e ↦ ∀ k, e ≠ .setSettled k false) { max := max } pre := by
        refine guarded_of_forall (fun e : PoolEvent ↦ ∀ k, e ≠ .setSettled k false) ?_ _
        rintro _ he k rfl
        exact h k (List.mem_append_left _ he)
      refine guarded_invariant (fun q ↦ ¬ q.HasFailed) (fun hnot hne hstep hfailed ↦ ?_) ?_ hguard
        hq
      · exact hnot (hasFailed_of_hasFailed_step hne hstep hfailed)
      · rintro ⟨_, ⟨⟩, -⟩
    exact (owned hq).accounted_iff.mpr hnone

/-- Two checkouts of a pool of two, one of which is released. -/
def twoCheckouts : List PoolEvent :=
  [.connect .query, .openClient 0, .setSettled 0 true, .connect .promise, .openClient 1,
    .release 0 false]

theorem pool_accounted_iff_twoCheckouts :
    ∃ p, run Pool.step { max := 2 } twoCheckouts = some p ∧
      p.available = 1 ∧
      ((∀ pre q, pre <+: twoCheckouts → run Pool.step { max := 2 } pre = some q → q.Accounted) ↔
        ∀ k, .setSettled k false ∉ twoCheckouts) ∧
      (p.Accounted ↔ ¬ p.HasFailed) :=
  exists_run_of_any (fun p : Pool ↦ p.available = 1) (by decide)
    fun _ hrun havailable ↦ ⟨havailable, pool_accounted_iff hrun⟩

/-- A pool of one after `pool.query` and, in another run, `pool.connect()` whose SET has failed: the
pool can hand out no client, and none is used. -/
theorem client_lost :
    (∃ p, run Pool.step { max := 1 } [.connect .query, .openClient 0, .setSettled 0 false] =
        some p ∧
      p.available = 0 ∧ p.inUse = 0 ∧ p.checkouts.filterMap Checkout.releasable = [] ∧
      ¬ p.Accounted) ∧
    ∃ p, run Pool.step { max := 1 } [.connect .promise, .openClient 0, .setSettled 0 false] =
        some p ∧
      p.available = 0 ∧ p.inUse = 0 ∧ p.checkouts.filterMap Checkout.releasable = [] ∧
      ¬ p.Accounted := by
  refine ⟨?_, ?_⟩ <;>
    refine exists_run_of_any (fun p : Pool ↦ p.available = 0 ∧ p.inUse = 0 ∧
      p.checkouts.filterMap Checkout.releasable = [] ∧ p.max = 1) (by decide)
      fun p _ hp ↦ ⟨hp.1, hp.2.1, hp.2.2.1, fun h ↦ ?_⟩
  all_goals
    have hcapacity := h.capacity
    rw [hp.1, hp.2.1, hp.2.2.2] at hcapacity
    cases hcapacity

end Pool

end PostgresChat
