import Mathlib.Tactic.Linarith
import PostgresChat.Js.Integers

/-!
# Doubles

A finite double is `±m * 2 ^ e` with `m ≤ 2⁵³` and `-1074 ≤ e`. Rounding gives a double, and a
double is rounded to itself, because its own unit in the last place divides it. Two facts about
integers beyond `2⁵³` follow. What is printed for one is an integer again that is read back as the
same double, with zeros in place of the digits that are not needed. And a natural number is rounded
to a double below `2⁶³` exactly when it is below `2⁶³ - 512`: the doubles next to `2⁶³` from below
are `1024` apart, and the tie goes up.
-/

namespace JsNumber

/-! ## Magnitudes -/

theorem scale_eq_zpow (base : ℕ) (e : ℤ) : scale base e = (base : ℚ) ^ e := by
  rw [scale]
  split
  · rename_i he
    rw [← zpow_natCast, Int.toNat_of_nonneg he]
  · rename_i he
    rw [← zpow_natCast, Int.toNat_of_nonneg (by omega), zpow_neg, one_div, inv_inv]

/-- The magnitude of a number brackets it between two powers. -/
theorem magnitude_spec {base : ℕ} (hbase : 1 < base) {q : ℚ} (hq : 0 < q) :
    (base : ℚ) ^ magnitude base q ≤ q ∧ q < (base : ℚ) ^ (magnitude base q + 1) := by
  have hpos : (0 : ℚ) < base := by exact_mod_cast Nat.zero_lt_of_lt hbase
  have hnum : 0 < q.num := Rat.num_pos.mpr hq
  obtain ⟨p, hp⟩ : ∃ p, q.num.toNat = p := ⟨_, rfl⟩
  have hpne : p ≠ 0 := by omega
  have hqp : q * q.den = p := by
    rw [Rat.mul_den_eq_num, ← hp]
    exact_mod_cast (Int.toNat_of_nonneg hnum.le).symm
  have hden : (0 : ℚ) < q.den := by exact_mod_cast q.den_pos
  have hnumLe : (base : ℚ) ^ (Nat.log base p : ℤ) ≤ p := by
    rw [zpow_natCast]
    exact_mod_cast Nat.pow_log_le_self base hpne
  have hnumLt : (p : ℚ) < (base : ℚ) ^ ((Nat.log base p : ℤ) + 1) := by
    rw [← Nat.cast_succ, zpow_natCast]
    exact_mod_cast Nat.lt_pow_succ_log_self hbase p
  have hdenLe : (base : ℚ) ^ (Nat.log base q.den : ℤ) ≤ q.den := by
    rw [zpow_natCast]
    exact_mod_cast Nat.pow_log_le_self base q.den_nz
  have hdenLt : (q.den : ℚ) < (base : ℚ) ^ ((Nat.log base q.den : ℤ) + 1) := by
    rw [← Nat.cast_succ, zpow_natCast]
    exact_mod_cast Nat.lt_pow_succ_log_self hbase q.den
  -- The logarithms of numerator and denominator leave two exponents.
  have hmagnitude : magnitude base q =
      if (base : ℚ) ^ ((Nat.log base p : ℤ) - Nat.log base q.den) ≤ q
      then (Nat.log base p : ℤ) - Nat.log base q.den
      else (Nat.log base p : ℤ) - Nat.log base q.den - 1 := by
    rw [magnitude, hp, ← scale_eq_zpow]
  rw [hmagnitude]
  generalize (Nat.log base p : ℤ) = a at *
  generalize (Nat.log base q.den : ℤ) = b at *
  -- The lower one is small enough in any case, and the one above the upper too large.
  have hlow : (base : ℚ) ^ (a - b - 1) < q := by
    refine lt_of_mul_lt_mul_right ?_ hden.le
    calc (base : ℚ) ^ (a - b - 1) * q.den < (base : ℚ) ^ (a - b - 1) * (base : ℚ) ^ (b + 1) :=
          mul_lt_mul_of_pos_left hdenLt (zpow_pos hpos _)
      _ = (base : ℚ) ^ a := by
          rw [← zpow_add₀ hpos.ne']
          congr 1
          omega
      _ ≤ q * q.den := hqp ▸ hnumLe
  have hhigh : q < (base : ℚ) ^ (a - b + 1) := by
    refine lt_of_mul_lt_mul_right ?_ hden.le
    calc q * q.den < (base : ℚ) ^ (a + 1) := hqp ▸ hnumLt
      _ = (base : ℚ) ^ (a - b + 1) * (base : ℚ) ^ b := by
          rw [← zpow_add₀ hpos.ne']
          congr 1
          omega
      _ ≤ (base : ℚ) ^ (a - b + 1) * q.den :=
          mul_le_mul_of_nonneg_left hdenLe (zpow_pos hpos _).le
  split
  · rename_i hle
    exact ⟨hle, hhigh⟩
  · rename_i hlt
    rw [show a - b - 1 + 1 = a - b by omega]
    exact ⟨hlow.le, not_le.mp hlt⟩

/-- Only one power brackets a number. -/
theorem magnitude_le {base : ℕ} (hbase : 1 < base) {q : ℚ} (hq : 0 < q) {e : ℤ}
    (h : q < (base : ℚ) ^ (e + 1)) : magnitude base q ≤ e := by
  have hlt := (magnitude_spec hbase hq).1.trans_lt h
  rw [zpow_lt_zpow_iff_right₀ (by exact_mod_cast hbase)] at hlt
  omega

/-! ## Nearest integers -/

theorem roundHalfEven_le_floor_add_one (q : ℚ) : roundHalfEven q ≤ ⌊q⌋ + 1 := by
  rw [roundHalfEven]
  split_ifs <;> omega

theorem roundHalfEven_le {q : ℚ} {z : ℤ} (h : q ≤ z) : roundHalfEven q ≤ z := by
  rcases h.lt_or_eq with h | rfl
  · have hfloor := Int.floor_lt.mpr h
    have := roundHalfEven_le_floor_add_one q
    omega
  · rw [roundHalfEven_intCast]

theorem le_roundHalfEven {q : ℚ} {z : ℤ} (h : z ≤ q) : z ≤ roundHalfEven q :=
  (Int.le_floor.mpr h).trans (floor_le_roundHalfEven q)

/-- A number is rounded up to an even integer from half a unit below it. -/
theorem le_roundHalfEven_iff {q : ℚ} {z : ℤ} (hz : z % 2 = 0) :
    z ≤ roundHalfEven q ↔ (z : ℚ) - 1 / 2 ≤ q := by
  have hle := Int.floor_le q
  have hlt := Int.lt_floor_add_one q
  rcases lt_trichotomy ⌊q⌋ (z - 1) with hfloor | hfloor | hfloor
  · -- Two units below, not even the next integer is `z`.
    have hround := roundHalfEven_le_floor_add_one q
    have hcast : (⌊q⌋ : ℚ) + 1 ≤ z - 1 := by exact_mod_cast (by omega : ⌊q⌋ + 1 ≤ z - 1)
    refine ⟨fun h ↦ by omega, fun h ↦ ?_⟩
    linarith
  · have hcast : (⌊q⌋ : ℚ) = z - 1 := by exact_mod_cast hfloor
    rw [roundHalfEven, hfloor]
    push_cast
    split_ifs with hbelow habove heven
    · exact ⟨fun h ↦ by omega, fun h ↦ by linarith⟩
    · exact ⟨fun _ ↦ by linarith, fun _ ↦ by omega⟩
    · omega
    · exact ⟨fun _ ↦ by linarith, fun _ ↦ by omega⟩
  · have hcast : (z : ℚ) ≤ ⌊q⌋ := by exact_mod_cast (by omega : z ≤ ⌊q⌋)
    exact ⟨fun _ ↦ by linarith, fun _ ↦ le_roundHalfEven (hcast.trans hle)⟩

/-! ## Doubles -/

/-- A finite double. -/
def IsDouble (x : ℚ) : Prop :=
  ∃ (m : ℕ) (e : ℤ), m ≤ 2 ^ 53 ∧ -1074 ≤ e ∧ |x| = m * 2 ^ e ∧ |x| < 2 ^ 1024

/-- The exponent of the unit in the last place. -/
def unitExponent (q : ℚ) : ℤ := max (magnitude 2 |q| - 52) (-1074)

theorem round_of_ne_zero {q : ℚ} (hq : q ≠ 0) :
    round q = if 2 ^ 1024 ≤ (roundHalfEven (|q| / 2 ^ unitExponent q) : ℚ) * 2 ^ unitExponent q
      then .infinity (q < 0)
      else .finite (if q < 0 then
        -((roundHalfEven (|q| / 2 ^ unitExponent q) : ℚ) * 2 ^ unitExponent q)
        else (roundHalfEven (|q| / 2 ^ unitExponent q) : ℚ) * 2 ^ unitExponent q) := by
  rw [round, if_neg hq, scale_eq_zpow]
  rfl

/-- Rounding leaves fifty-three bits. -/
theorem exists_roundHalfEven (q : ℚ) (hq : q ≠ 0) :
    ∃ m : ℕ, roundHalfEven (|q| / 2 ^ unitExponent q) = m ∧ m ≤ 2 ^ 53 := by
  have hunit : (0 : ℚ) < 2 ^ unitExponent q := zpow_pos (by norm_num) _
  have hnonneg : 0 ≤ roundHalfEven (|q| / 2 ^ unitExponent q) :=
    le_roundHalfEven (by simpa using div_nonneg (abs_nonneg q) hunit.le)
  have hle : roundHalfEven (|q| / 2 ^ unitExponent q) ≤ (2 : ℤ) ^ 53 := by
    refine roundHalfEven_le ((div_le_iff₀ hunit).mpr ?_)
    calc |q| ≤ (2 : ℚ) ^ (magnitude 2 |q| + 1) := (magnitude_spec one_lt_two (abs_pos.mpr hq)).2.le
      _ ≤ (2 : ℚ) ^ (53 + unitExponent q) :=
          zpow_le_zpow_right₀ (by norm_num) (by rw [unitExponent]; omega)
      _ = ((2 ^ 53 : ℤ) : ℚ) * 2 ^ unitExponent q := by
          rw [zpow_add₀ (by norm_num)]
          norm_num
  exact ⟨_, (Int.toNat_of_nonneg hnonneg).symm, by omega⟩

/-- **Rounding gives a double.** -/
theorem isDouble_of_round {q x : ℚ} (h : round q = .finite x) : IsDouble x := by
  by_cases hq : q = 0
  · rw [round, if_pos hq, JsNumber.finite.injEq] at h
    exact ⟨0, 0, by norm_num, by norm_num, by rw [← h]; simp, by rw [← h]; norm_num⟩
  · obtain ⟨m, hm, hle⟩ := exists_roundHalfEven q hq
    have hnonneg : (0 : ℚ) ≤ m * 2 ^ unitExponent q :=
      mul_nonneg (Nat.cast_nonneg m) (zpow_pos (by norm_num) _).le
    rw [round_of_ne_zero hq, hm, Int.cast_natCast] at h
    split at h
    · cases h
    · rename_i hsmall
      have habs : |x| = m * 2 ^ unitExponent q := by
        rw [← JsNumber.finite.inj h]
        split
        · rw [abs_neg, abs_of_nonneg hnonneg]
        · rw [abs_of_nonneg hnonneg]
      exact ⟨m, unitExponent q, hle, le_max_right _ _, habs, habs ▸ not_le.mp hsmall⟩

/-- The unit in the last place of a double divides it. -/
theorem IsDouble.exists_mul_unit {x : ℚ} (h : IsDouble x) (hx : x ≠ 0) :
    ∃ k : ℕ, |x| = k * 2 ^ unitExponent x := by
  obtain ⟨m, e, hm, he, habs, -⟩ := h
  by_cases hunit : unitExponent x ≤ e
  · obtain ⟨j, hj⟩ := Int.le.dest hunit
    refine ⟨m * 2 ^ j, ?_⟩
    rw [habs, ← hj, zpow_add₀ (by norm_num), zpow_natCast]
    push_cast
    ring
  · -- The unit is larger than that of the representation, which then has the largest `m`.
    have hmagnitude : e + 53 ≤ magnitude 2 |x| := by
      rw [unitExponent] at hunit
      omega
    have hpow : (2 : ℚ) ^ (e + 53) ≤ |x| := by
      refine le_trans ?_ (magnitude_spec one_lt_two (abs_pos.mpr hx)).1
      exact zpow_le_zpow_right₀ (by norm_num) hmagnitude
    have hlargest : |x| = (2 : ℚ) ^ (e + 53) := by
      refine le_antisymm ?_ hpow
      rw [habs, zpow_add₀ (by norm_num), mul_comm]
      refine mul_le_mul_of_nonneg_left ?_ (zpow_pos (by norm_num) e).le
      exact_mod_cast hm
    have hsame : magnitude 2 |x| ≤ e + 53 :=
      magnitude_le one_lt_two (abs_pos.mpr hx) (by
        rw [hlargest]
        exact zpow_lt_zpow_right₀ (by norm_num) (by omega))
    refine ⟨2 ^ 52, ?_⟩
    rw [hlargest, show unitExponent x = e + 1 by rw [unitExponent]; omega,
      show e + 53 = 52 + (e + 1) by omega, zpow_add₀ (by norm_num)]
    norm_num

/-- **A double is rounded to itself.** -/
theorem round_of_isDouble {x : ℚ} (h : IsDouble x) : round x = .finite x := by
  by_cases hx : x = 0
  · rw [round, if_pos hx, hx]
  · obtain ⟨k, hk⟩ := h.exists_mul_unit hx
    have hunit : (2 : ℚ) ^ unitExponent x ≠ 0 := zpow_ne_zero _ (by norm_num)
    have hround : (roundHalfEven (|x| / 2 ^ unitExponent x) : ℚ) * 2 ^ unitExponent x = |x| := by
      rw [hk, mul_div_assoc, div_self hunit, mul_one, ← Int.cast_natCast k, roundHalfEven_intCast]
    obtain ⟨-, -, -, -, -, hsmall⟩ := h
    rw [round_of_ne_zero hx, hround, if_neg (not_le.mpr hsmall)]
    split
    · rename_i hneg
      rw [abs_of_neg hneg, neg_neg]
    · rename_i hpos
      rw [abs_of_nonneg (not_lt.mp hpos)]

/-- What a number is rounded to is rounded to itself. -/
theorem round_round {q x : ℚ} (h : round q = .finite x) : round x = .finite x :=
  round_of_isDouble (isDouble_of_round h)

theorem IsDouble.neg {x : ℚ} (h : IsDouble x) : IsDouble (-x) := by
  rw [IsDouble, abs_neg]
  exact h

/-! ## Integers below `2⁶³` -/

theorem unitExponent_natCast {n : ℕ} (hn : 0 < n) :
    unitExponent (n : ℚ) = (Nat.log 2 n : ℤ) - 52 := unit_natCast hn

/-- What a natural number is rounded to, if it is finite. -/
theorem round_natCast_eq_finite {n : ℕ} (hn : 0 < n) {x : ℚ} :
    round (n : ℚ) = .finite x ↔
      x = roundHalfEven ((n : ℚ) / 2 ^ unitExponent (n : ℚ)) * 2 ^ unitExponent (n : ℚ) ∧
        x < 2 ^ 1024 := by
  have hnonneg : ¬ (n : ℚ) < 0 := not_lt.mpr (Nat.cast_nonneg n)
  rw [round_of_ne_zero (Nat.cast_ne_zero.mpr hn.ne'), Nat.abs_cast, if_neg hnonneg]
  split
  · rename_i hlarge
    refine ⟨nofun, fun ⟨hx, hlt⟩ ↦ absurd hlt (not_lt.mpr ?_)⟩
    rw [hx]
    exact hlarge
  · rename_i hsmall
    rw [JsNumber.finite.injEq]
    exact ⟨fun h ↦ ⟨h.symm, h ▸ not_le.mp hsmall⟩, fun h ↦ h.1.symm⟩

/-- What a natural number is rounded to is an integer. -/
theorem exists_natCast_of_round {n : ℕ} {x : ℚ} (h : round (n : ℚ) = .finite x) :
    ∃ m : ℕ, x = m := by
  by_cases hsmall : n < 2 ^ 53
  · rw [round_natCast hsmall, JsNumber.finite.injEq] at h
    exact ⟨n, h.symm⟩
  · have hpos : 0 < n := by omega
    have hlog : 53 ≤ Nat.log 2 n :=
      (Nat.le_log_iff_pow_le one_lt_two hpos.ne').mpr (not_lt.mp hsmall)
    obtain ⟨j, hj⟩ := Nat.le.dest hlog
    have hexp : unitExponent (n : ℚ) = ((j + 1 : ℕ) : ℤ) := by
      rw [unitExponent_natCast hpos]
      omega
    obtain ⟨m, hm, -⟩ := exists_roundHalfEven (n : ℚ) (Nat.cast_ne_zero.mpr hpos.ne')
    rw [Nat.abs_cast] at hm
    rw [round_natCast_eq_finite hpos, hm, hexp, zpow_natCast] at h
    refine ⟨m * 2 ^ (j + 1), h.1.trans ?_⟩
    push_cast
    rfl

/-- **Below `2⁶³`.** A natural number is rounded to a double below `2⁶³` if it is nearer to one than
to `2⁶³`. -/
theorem exists_round_lt_iff (n : ℕ) :
    (∃ x < 2 ^ 63, round (n : ℚ) = .finite x) ↔ n < 2 ^ 63 - 512 := by
  rcases Nat.eq_zero_or_pos n with rfl | hpos
  · exact ⟨fun _ ↦ by norm_num, fun _ ↦ ⟨0, by norm_num, by rw [Nat.cast_zero, round, if_pos rfl]⟩⟩
  · have hunit := unitExponent_natCast hpos
    have hlow : 2 ^ Nat.log 2 n ≤ n := Nat.pow_log_le_self 2 hpos.ne'
    have hhigh : n < 2 ^ (Nat.log 2 n + 1) := Nat.lt_pow_succ_log_self one_lt_two n
    have hexists : (∃ x < 2 ^ 63, round (n : ℚ) = .finite x) ↔
        (roundHalfEven ((n : ℚ) / 2 ^ unitExponent (n : ℚ)) : ℚ) * 2 ^ unitExponent (n : ℚ) <
          2 ^ 63 := by
      constructor
      · rintro ⟨x, hx, hround⟩
        rw [round_natCast_eq_finite hpos] at hround
        exact hround.1 ▸ hx
      · refine fun hlt ↦ ⟨_, hlt, (round_natCast_eq_finite hpos).mpr ⟨rfl, hlt.trans ?_⟩⟩
        exact pow_lt_pow_right₀ (by norm_num) (by norm_num)
    rw [hexists]
    rcases lt_trichotomy (Nat.log 2 n) 62 with hlog | hlog | hlog
    · -- Rounding does not pass the next power of two.
      obtain ⟨m, hm, hle⟩ := exists_roundHalfEven (n : ℚ) (Nat.cast_ne_zero.mpr hpos.ne')
      rw [Nat.abs_cast] at hm
      have hpow : 2 ^ (Nat.log 2 n + 1) ≤ 2 ^ 62 := Nat.pow_le_pow_right (by norm_num) hlog
      refine ⟨fun _ ↦ by omega, fun _ ↦ ?_⟩
      rw [hm, Int.cast_natCast]
      calc (m : ℚ) * 2 ^ unitExponent (n : ℚ) ≤ 2 ^ (53 : ℤ) * 2 ^ (9 : ℤ) := by
            refine mul_le_mul (by exact_mod_cast hle) ?_ (zpow_pos (by norm_num) _).le (by norm_num)
            exact zpow_le_zpow_right₀ (by norm_num) (by omega)
        _ < 2 ^ 63 := by norm_num
    · -- The unit is `1024`.
      rw [hunit, hlog, show ((62 : ℕ) : ℤ) - 52 = 10 by norm_num]
      have heven := le_roundHalfEven_iff (q := (n : ℚ) / 2 ^ (10 : ℤ)) (z := 2 ^ 53) (by norm_num)
      have hlt : (roundHalfEven ((n : ℚ) / 2 ^ (10 : ℤ)) : ℚ) * 2 ^ (10 : ℤ) < 2 ^ 63 ↔
          roundHalfEven ((n : ℚ) / 2 ^ (10 : ℤ)) < 2 ^ 53 := by
        rw [← lt_div_iff₀ (by norm_num)]
        norm_num
        norm_cast
      rw [hlt, ← not_le, heven, not_le]
      rw [div_lt_iff₀ (by norm_num)]
      norm_num
    · -- Rounding does not pass the power of two below.
      obtain ⟨j, hj⟩ := Nat.le.dest (show 52 ≤ Nat.log 2 n by omega)
      have hexp : unitExponent (n : ℚ) = (j : ℤ) := by omega
      have hle : (2 : ℤ) ^ 52 ≤ roundHalfEven ((n : ℚ) / 2 ^ j) := by
        refine le_roundHalfEven ((le_div_iff₀ (by positivity)).mpr ?_)
        rw [← hj, pow_add] at hlow
        exact_mod_cast hlow
      have hpow : 2 ^ 63 ≤ 2 ^ Nat.log 2 n := Nat.pow_le_pow_right (by norm_num) hlog
      rw [hexp, zpow_natCast]
      refine iff_of_false (not_lt.mpr ?_) (by omega)
      calc (2 : ℚ) ^ 63 ≤ 2 ^ 52 * 2 ^ j := by
            rw [← pow_add]
            exact pow_le_pow_right₀ (by norm_num) (by omega)
        _ ≤ (roundHalfEven ((n : ℚ) / 2 ^ j) : ℚ) * 2 ^ j := by
            refine mul_le_mul_of_nonneg_right ?_ (by positivity)
            exact_mod_cast hle

end JsNumber
