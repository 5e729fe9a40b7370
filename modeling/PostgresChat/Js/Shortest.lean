import PostgresChat.Js.Doubles

/-!
# Seventeen digits

The printer tries decimals with more and more digits until one is rounded to the double. With
seventeen digits it finds one: the decimal is off by at most half a unit in the seventeenth digit,
and that is less than half the distance to the next double. Above a power of two the doubles are
twice as far apart as below it, and there the distance is that of the double above; it is still
large enough.

So the printer never falls through its last attempt, and what it has chosen is a decimal of that
many digits which is read back as the double (`shortest_spec`).
-/

namespace JsNumber

/-! ## Near a double -/

theorem abs_roundHalfEven_sub_le (q : ℚ) : |(roundHalfEven q : ℚ) - q| ≤ 1 / 2 := by
  have hle := Int.floor_le q
  have hlt := Int.lt_floor_add_one q
  rw [roundHalfEven]
  split_ifs with hbelow habove
  · rw [abs_le]
    constructor <;> linarith
  · push_cast
    rw [abs_le]
    constructor <;> linarith
  · rw [abs_le]
    constructor <;> linarith
  · push_cast
    rw [abs_le]
    constructor <;> linarith

/-- The only integer within half a unit. -/
theorem roundHalfEven_of_abs_lt {q : ℚ} {z : ℤ} (h : |q - z| < 1 / 2) : roundHalfEven q = z := by
  have hround := abs_roundHalfEven_sub_le q
  have hdistance : |(roundHalfEven q : ℚ) - z| < 1 := by
    calc |(roundHalfEven q : ℚ) - z| ≤ |(roundHalfEven q : ℚ) - q| + |q - z| := abs_sub_le _ _ _
      _ < 1 := by linarith
  have hint : |roundHalfEven q - z| < 1 := by exact_mod_cast hdistance
  rw [Int.abs_lt_one_iff] at hint
  omega

theorem unitExponent_of_pos {q : ℚ} (hq : 0 < q) :
    unitExponent q = max (magnitude 2 q - 52) (-1074) := by rw [unitExponent, abs_of_pos hq]

/-- A positive number that is an integer number of its units away from where it is rounded to. -/
theorem round_of_near_unit {v x : ℚ} (hv : 0 < v) {k : ℕ} (hx : x = k * 2 ^ unitExponent v)
    (hsmall : x < 2 ^ 1024) (h : |v - x| < 2 ^ unitExponent v / 2) : round v = .finite x := by
  have hunit : (0 : ℚ) < 2 ^ unitExponent v := zpow_pos (by norm_num) _
  have hnear : |v / 2 ^ unitExponent v - ((k : ℤ) : ℚ)| < 1 / 2 := by
    have hdiv : v / 2 ^ unitExponent v - ((k : ℤ) : ℚ) = (v - x) / 2 ^ unitExponent v := by
      rw [sub_div, hx, mul_div_assoc, div_self hunit.ne', mul_one, Int.cast_natCast]
    rw [hdiv, abs_div, abs_of_pos hunit, div_lt_iff₀ hunit]
    linarith
  rw [round_of_ne_zero hv.ne', abs_of_pos hv, roundHalfEven_of_abs_lt hnear, Int.cast_natCast,
    ← hx, if_neg (not_le.mpr hsmall), if_neg (not_lt.mpr hv.le)]

/-- **Near a double.** A number that is less than half a unit away from a double is rounded to it;
below a power of two, where the units are half as large, that is less than a quarter. -/
theorem round_of_near {v x : ℚ} (hx : IsDouble x) (hpos : 0 < x)
    (h : |v - x| < 2 ^ unitExponent x / 2)
    (hbelow : x = 2 ^ magnitude 2 x → |v - x| < 2 ^ unitExponent x / 4) :
    round v = .finite x := by
  obtain ⟨k, hk⟩ := hx.exists_mul_unit hpos.ne'
  obtain ⟨-, -, -, -, -, hsmall⟩ := hx
  rw [abs_of_pos hpos] at hk hsmall
  have hspec := magnitude_spec one_lt_two hpos
  have hexp := unitExponent_of_pos hpos
  rw [Nat.cast_ofNat] at hspec
  obtain ⟨E, hE⟩ : ∃ E, unitExponent x = E := ⟨_, rfl⟩
  obtain ⟨M, hM⟩ : ∃ M, magnitude 2 x = M := ⟨_, rfl⟩
  rw [hE] at h hbelow hk hexp
  rw [hM] at hspec hbelow hexp
  have hunit : (0 : ℚ) < 2 ^ E := zpow_pos (by norm_num) _
  have hkpos : 1 ≤ k := Nat.pos_of_ne_zero fun hzero ↦ by
    rw [hzero, Nat.cast_zero, zero_mul] at hk
    exact hpos.ne' hk
  have hxunit : (2 : ℚ) ^ E ≤ x := by
    rw [hk]
    exact le_mul_of_one_le_left hunit.le (by exact_mod_cast hkpos)
  obtain ⟨hlower, hupper⟩ := abs_lt.mp h
  have hv : 0 < v := by linarith
  have hvspec := magnitude_spec one_lt_two hv
  rw [Nat.cast_ofNat] at hvspec
  -- The number is below the next power of two, so its unit is not larger.
  have hnext : v < 2 ^ (E + 53) := by
    have hklt : k < 2 ^ 53 := by
      have hlt : (k : ℚ) * 2 ^ E < 2 ^ (53 : ℤ) * 2 ^ E := by
        rw [← zpow_add₀ (by norm_num), ← hk]
        exact hspec.2.trans_le (zpow_le_zpow_right₀ (by norm_num) (by omega))
      exact_mod_cast lt_of_mul_lt_mul_right hlt hunit.le
    have hxle : x ≤ 2 ^ (E + 53) - 2 ^ E := by
      have hle : (k : ℚ) + 1 ≤ 2 ^ (53 : ℤ) := by exact_mod_cast hklt
      have hmul := mul_le_mul_of_nonneg_right hle hunit.le
      rw [add_mul, one_mul, ← hk, ← zpow_add₀ (by norm_num), add_comm 53 E] at hmul
      linarith
    linarith
  have hle : unitExponent v ≤ E := by
    have hmagnitude := magnitude_le one_lt_two hv
      (e := E + 52) (by rw [Nat.cast_ofNat, show E + 52 + 1 = E + 53 by omega]; exact hnext)
    rw [unitExponent_of_pos hv]
    omega
  rcases hle.eq_or_lt with heq | hlt
  · exact round_of_near_unit hv (heq ▸ hk) hsmall (heq ▸ h)
  · -- The unit of the number is smaller: it is below the power of two that the double is.
    rw [unitExponent_of_pos hv] at hlt
    have hEM : E = M - 52 := by omega
    have hvM : v < 2 ^ M := by
      refine hvspec.2.trans_le (zpow_le_zpow_right₀ (by norm_num) ?_)
      omega
    have hpow : (2 : ℚ) ^ M = 2 ^ 52 * 2 ^ E := by
      rw [hEM, ← zpow_natCast, ← zpow_add₀ (by norm_num)]
      congr 1
      omega
    have hxM : x = 2 ^ M := by
      have hklt : k < 2 ^ 52 + 1 := by
        by_contra hge
        have hcast : (2 : ℚ) ^ 52 + 1 ≤ k := by exact_mod_cast not_lt.mp hge
        have hmul := mul_le_mul_of_nonneg_right hcast hunit.le
        rw [← hk, add_mul, one_mul, ← hpow] at hmul
        linarith
      refine le_antisymm ?_ hspec.1
      rw [hk, hpow]
      exact mul_le_mul_of_nonneg_right (by exact_mod_cast Nat.lt_succ_iff.mp hklt) hunit.le
    have hquarter := hbelow hxM
    have hhalf : (2 : ℚ) ^ (E - 1) = 2 ^ E / 2 := by
      rw [zpow_sub₀ (by norm_num), zpow_one]
    have hvlow : (2 : ℚ) ^ (M - 1) < v := by
      have hM1 : (2 : ℚ) ^ (M - 1) = 2 ^ M / 2 := by rw [zpow_sub₀ (by norm_num), zpow_one]
      have hfifty : (2 : ℚ) ^ E ≤ 2 ^ M / 4 := by
        rw [hpow]
        linarith
      have := (abs_lt.mp hquarter).1
      rw [hM1]
      linarith
    have hmagnitude : magnitude 2 v = M - 1 := by
      refine le_antisymm (magnitude_le one_lt_two hv ?_) ?_
      · rw [Nat.cast_ofNat, sub_add_cancel]
        exact hvM
      · have hpowers := hvlow.trans hvspec.2
        rw [zpow_lt_zpow_iff_right₀ (by norm_num)] at hpowers
        omega
    have hunitv : unitExponent v = E - 1 := by
      rw [unitExponent_of_pos hv, hmagnitude]
      omega
    refine round_of_near_unit hv (k := 2 * k) ?_ hsmall ?_
    · rw [hunitv, hhalf, hk]
      push_cast
      ring
    · rw [hunitv, hhalf]
      linarith

/-- Numbers of opposite sign. -/
theorem round_neg_of_pos {v x : ℚ} (hv : 0 < v) (h : round v = .finite x) :
    round (-v) = .finite (-x) := by
  have hunit : unitExponent (-v) = unitExponent v := by rw [unitExponent, unitExponent, abs_neg]
  rw [round_of_ne_zero hv.ne', abs_of_pos hv] at h
  rw [round_of_ne_zero (neg_ne_zero.mpr hv.ne'), abs_neg, abs_of_pos hv, hunit,
    if_pos (neg_lt_zero.mpr hv)]
  rw [if_neg (not_lt.mpr hv.le)] at h
  split_ifs at h ⊢
  rw [← JsNumber.finite.inj h]

/-! ## What the printer chooses -/

/-- The position of the digits. -/
theorem digits_bounds {x : ℚ} (hpos : 0 < x) (k : ℕ) :
    ((10 ^ k : ℕ) : ℚ) ≤ x / scale 10 (magnitude 10 x + 1 - (k + 1)) ∧
      x / scale 10 (magnitude 10 x + 1 - (k + 1)) < (10 ^ (k + 1) : ℕ) := by
  have hspec := magnitude_spec (show 1 < 10 by norm_num) hpos
  rw [Nat.cast_ofNat] at hspec
  obtain ⟨j, hj⟩ : ∃ j : ℤ, magnitude 10 x + 1 - (k + 1) = j := ⟨_, rfl⟩
  have hscale : (0 : ℚ) < 10 ^ j := zpow_pos (by norm_num) _
  rw [hj, scale_eq_zpow, Nat.cast_ofNat, le_div_iff₀ hscale, div_lt_iff₀ hscale]
  push_cast
  rw [← zpow_natCast, ← zpow_natCast, ← zpow_add₀ (by norm_num), ← zpow_add₀ (by norm_num),
    show (k : ℤ) + j = magnitude 10 x by omega,
    show ((k + 1 : ℕ) : ℤ) + j = magnitude 10 x + 1 by push_cast; omega]
  exact hspec

theorem neighbours_bounds {q : ℚ} {a b s : ℕ} (hlow : (a : ℚ) ≤ q) (hhigh : q < b)
    (hs : s ∈ neighbours q) : a ≤ s ∧ s ≤ b := by
  have hlow' : (a : ℤ) ≤ roundHalfEven q := le_roundHalfEven (by exact_mod_cast hlow)
  have hhigh' : roundHalfEven q ≤ (b : ℤ) := roundHalfEven_le (by exact_mod_cast hhigh.le)
  rw [neighbours, List.mem_cons, List.mem_singleton] at hs
  rcases hs with rfl | rfl
  · omega
  · split
    · rename_i hbelow
      have hlt : (roundHalfEven q).toNat < b := by exact_mod_cast hbelow.trans_lt hhigh
      omega
    · rename_i habove
      have hlt : a < (roundHalfEven q).toNat := by
        exact_mod_cast hlow.trans_lt (not_le.mp habove)
      omega

/-- The nearest decimal is off by at most half a unit. -/
theorem abs_nearest_sub_le {x : ℚ} (hpos : 0 < x) (j : ℤ) :
    |((roundHalfEven (x / scale 10 j)).toNat : ℚ) * scale 10 j - x| ≤ scale 10 j / 2 := by
  have hscale : (0 : ℚ) < scale 10 j := by
    rw [scale_eq_zpow]
    exact zpow_pos (by norm_num) _
  have hnonneg : 0 ≤ roundHalfEven (x / scale 10 j) :=
    le_roundHalfEven (by exact_mod_cast (div_pos hpos hscale).le)
  have hcast : ((roundHalfEven (x / scale 10 j)).toNat : ℚ) = roundHalfEven (x / scale 10 j) := by
    exact_mod_cast Int.toNat_of_nonneg hnonneg
  have hfactor : (roundHalfEven (x / scale 10 j) : ℚ) * scale 10 j - x =
      (roundHalfEven (x / scale 10 j) - x / scale 10 j) * scale 10 j := by
    rw [sub_mul, div_mul_cancel₀ _ hscale.ne']
  have hnear := abs_roundHalfEven_sub_le (x / scale 10 j)
  rw [hcast, hfactor, abs_mul, abs_of_pos hscale]
  linarith [mul_le_mul_of_nonneg_right hnear hscale.le]

/-- **Seventeen digits suffice.** -/
theorem round_seventeen {x : ℚ} (hx : IsDouble x) (hpos : 0 < x) :
    round ((roundHalfEven (x / scale 10 (magnitude 10 x + 1 - 17))).toNat *
      scale 10 (magnitude 10 x + 1 - 17)) = .finite x := by
  have hspec := magnitude_spec (show 1 < 10 by norm_num) hpos
  have hspec2 := magnitude_spec one_lt_two hpos
  rw [Nat.cast_ofNat] at hspec hspec2
  have hnear := abs_nearest_sub_le hpos (magnitude 10 x + 1 - 17)
  -- Half a unit in the seventeenth digit is at most `x / (2 * 10 ^ 16)`.
  have hstep : scale 10 (magnitude 10 x + 1 - 17) * 10 ^ 16 ≤ x := by
    rw [scale_eq_zpow, Nat.cast_ofNat, ← zpow_natCast, ← zpow_add₀ (by norm_num),
      show magnitude 10 x + 1 - 17 + ((16 : ℕ) : ℤ) = magnitude 10 x by push_cast; omega]
    exact hspec.1
  -- A unit in the last place is more than `x / 2 ^ 53`.
  have hunit : x < 2 ^ unitExponent x * 2 ^ 53 := by
    refine hspec2.2.trans_le ?_
    rw [← zpow_natCast, ← zpow_add₀ (by norm_num)]
    refine zpow_le_zpow_right₀ (by norm_num) ?_
    rw [unitExponent_of_pos hpos]
    push_cast
    omega
  refine round_of_near hx hpos ?_ fun hpower ↦ ?_
  · linarith
  · have hunit' : x ≤ 2 ^ unitExponent x * 2 ^ 52 := by
      rw [← zpow_natCast, ← zpow_add₀ (by norm_num)]
      refine hpower.le.trans (zpow_le_zpow_right₀ (by norm_num) ?_)
      rw [unitExponent_of_pos hpos]
      push_cast
      omega
    linarith

/-- The printer has chosen `k` digits `s` at the position `n`, which are read back as `x`. -/
structure Chosen (x : ℚ) (s k : ℕ) (n : ℤ) : Prop where
  pos : 1 ≤ k
  le : 10 ^ (k - 1) ≤ s
  lt : s < 10 ^ k
  round : round (s * scale 10 (n - k)) = .finite x

theorem shortestFrom_spec {x : ℚ} (hx : IsDouble x) (hpos : 0 < x) (fuel k : ℕ)
    (hk : k + fuel = 17) :
    ∃ s k' n, shortestFrom x (k + 1) fuel = (s, k', n) ∧ (k = 17 ∨ Chosen x s k' n) := by
  induction fuel generalizing k with
  | zero => exact ⟨_, _, _, rfl, .inl hk⟩
  | succ fuel ih =>
    rw [shortestFrom, Nat.cast_succ]
    split
    · rename_i s hfound
      have hdecide := List.find?_some hfound
      have hread : round (s * scale 10 (magnitude 10 x + 1 - (k + 1))) = .finite x :=
        of_decide_eq_true hdecide
      obtain ⟨hlow, hhigh⟩ := neighbours_bounds (digits_bounds hpos k).1 (digits_bounds hpos k).2
        (List.mem_of_find?_eq_some hfound)
      split
      · -- All digits were nines, and the next decimal has one digit more.
        rename_i hten
        refine ⟨_, _, _, rfl, .inr ⟨le_rfl, le_rfl, by norm_num, ?_⟩⟩
        rw [← hread]
        congr 1
        have hten' : (s : ℚ) = (10 : ℕ) ^ ((k + 1 : ℕ) : ℤ) := by
          rw [hten, zpow_natCast]
          push_cast
          rfl
        rw [scale_eq_zpow, scale_eq_zpow, hten', ← zpow_add₀ (by norm_num), Nat.cast_one, one_mul]
        congr 1
        push_cast
        omega
      · rename_i hten
        refine ⟨_, _, _, rfl, .inr ⟨by omega, ?_, by omega, ?_⟩⟩
        · rwa [Nat.add_sub_cancel]
        · rw [Nat.cast_succ]
          exact hread
    · rename_i hmissed
      have hlast : k ≠ 16 := by
        rintro rfl
        refine List.find?_eq_none.mp hmissed _ (mem_neighbours_nearest _) (decide_eq_true ?_)
        exact_mod_cast round_seventeen hx hpos
      obtain ⟨s', k', n, heq, hchosen⟩ := ih (k + 1) (by omega)
      exact ⟨s', k', n, heq, .inr (hchosen.resolve_left (by omega))⟩

/-- **What the printer chooses is read back.** -/
theorem shortest_spec {x : ℚ} (hx : IsDouble x) (hpos : 0 < x) :
    ∃ s k n, shortest x = (s, k, n) ∧ Chosen x s k n := by
  obtain ⟨s, k, n, heq, hchosen⟩ := shortestFrom_spec hx hpos 17 0 rfl
  exact ⟨s, k, n, heq, hchosen.resolve_left (by norm_num)⟩

end JsNumber
