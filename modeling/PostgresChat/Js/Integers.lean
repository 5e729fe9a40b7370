import Mathlib.Data.List.TakeWhile
import PostgresChat.Js.Number

/-!
# Integers as numbers and as text

A natural number below `2⁵³` is a double, so reading its decimal text gives the number itself. What
is printed for an integer that is a double is an integer again, and is read back as the double: of
the decimals that the printer tries, the one with all digits is the integer itself. Below `2⁵³` it
is the text of the integer, because an integer is not rounded to another one there. From there on
the two directions come apart, but an integer that is not below `2⁵³` is not read as a number below
it.

`parseInt` with radix 10 reads the longest run of digits after the white space and the sign.
-/

namespace JsNumber

/-! ## Decimal text -/

/-- A decimal digit. -/
def isDigit (u : UInt16) : Bool := 0x30 ≤ u.toNat && u.toNat ≤ 0x39

/-- The value of a text of digits. -/
def digitsValue (s : JsString) : ℕ := s.foldl (fun n u ↦ 10 * n + (u.toNat - 0x30)) 0

/-- The code unit of a digit. -/
def digitUnit (d : ℕ) : UInt16 := (0x30 + d).toUInt16

theorem toNat_digitUnit {d : ℕ} (hd : d < 10) : (digitUnit d).toNat = 0x30 + d := by
  rw [digitUnit, Nat.toUInt16_eq, UInt16.toNat_ofNat', Nat.mod_eq_of_lt]
  omega

theorem decimal_of_lt {n : ℕ} (hn : n < 10) : decimal n = [digitUnit n] := by
  rw [decimal, Nat.toDigits_of_lt_base hn, List.map_singleton, Nat.toNat_digitChar_of_lt_ten hn]
  rfl

theorem decimal_concat {n d : ℕ} (hn : 0 < n) (hd : d < 10) :
    decimal (10 * n + d) = decimal n ++ [digitUnit d] := by
  rw [← decimal_of_lt hd, decimal, decimal, decimal, ← List.map_append,
    Nat.toDigits_append_toDigits (by decide) hn hd]

/-- Numbers by their digits. -/
theorem induction_decimal {P : ℕ → Prop} (hdigit : ∀ n < 10, P n)
    (hconcat : ∀ n d, 0 < n → d < 10 → P n → P (10 * n + d)) (n : ℕ) : P n := by
  induction n using Nat.strong_induction_on with
  | _ n ih =>
    by_cases hn : n < 10
    · exact hdigit n hn
    · rw [← Nat.div_add_mod n 10]
      exact hconcat _ _ (by omega) (Nat.mod_lt _ (by decide)) (ih _ (by omega))

theorem digitsValue_decimal (n : ℕ) : digitsValue (decimal n) = n := by
  induction n using induction_decimal with
  | hdigit n hn =>
    rw [decimal_of_lt hn, digitsValue, List.foldl_cons, List.foldl_nil, toNat_digitUnit hn]
    omega
  | hconcat n d hn hd ih =>
    rw [digitsValue] at ih
    rw [decimal_concat hn hd, digitsValue, List.foldl_append, ih, List.foldl_cons, List.foldl_nil,
      toNat_digitUnit hd]
    omega

theorem exists_digitUnit_of_mem_decimal {n : ℕ} {u : UInt16} (hu : u ∈ decimal n) :
    ∃ d < 10, u = digitUnit d := by
  induction n using induction_decimal with
  | hdigit n hn =>
    rw [decimal_of_lt hn] at hu
    exact ⟨n, hn, List.mem_singleton.mp hu⟩
  | hconcat n d hn hd ih =>
    rw [decimal_concat hn hd] at hu
    rcases List.mem_append.mp hu with hu | hu
    · exact ih hu
    · exact ⟨d, hd, List.mem_singleton.mp hu⟩

theorem isDigit_of_mem_decimal {n : ℕ} {u : UInt16} (hu : u ∈ decimal n) : isDigit u = true := by
  have hdigits : ∀ d < 10, isDigit (digitUnit d) = true := by decide
  obtain ⟨d, hd, rfl⟩ := exists_digitUnit_of_mem_decimal hu
  exact hdigits d hd

theorem decimal_ne_nil (n : ℕ) : decimal n ≠ [] := by
  rw [decimal, Ne, List.map_eq_nil_iff]
  exact Nat.toDigits_ne_nil

theorem decimal_mul_pow {n : ℕ} (hn : 0 < n) (j : ℕ) :
    decimal (n * 10 ^ j) = decimal n ++ List.replicate j 0x30 := by
  induction j with
  | zero => rw [Nat.pow_zero, Nat.mul_one, List.replicate_zero, List.append_nil]
  | succ j ih =>
    have hpos : 0 < n * 10 ^ j := Nat.mul_pos hn (Nat.pow_pos (by decide))
    rw [Nat.pow_succ, ← Nat.mul_assoc, Nat.mul_comm _ 10, ← Nat.add_zero (10 * _),
      decimal_concat hpos (by decide), ih, List.append_assoc, List.replicate_succ']
    rfl

/-! ## Rounding -/

theorem scale_natCast (base e : ℕ) : scale base (e : ℤ) = ((base ^ e : ℕ) : ℚ) := by
  rw [scale, if_pos (Int.natCast_nonneg e), Int.toNat_natCast, Nat.cast_pow]

theorem scale_neg_natCast (base e : ℕ) : scale base (-(e : ℤ)) = 1 / (base : ℚ) ^ e := by
  rw [scale]
  split
  · rename_i hnonneg
    obtain rfl : e = 0 := by omega
    rw [Nat.cast_zero, neg_zero, Int.toNat_zero, pow_zero, div_one]
  · rw [neg_neg, Int.toNat_natCast]

theorem scale_nonneg (base : ℕ) (e : ℤ) : 0 ≤ scale base e := by
  rw [scale]
  split <;> positivity

theorem magnitude_natCast {base n : ℕ} (hn : 0 < n) :
    magnitude base (n : ℚ) = Nat.log base n := by
  have hlog : (Nat.log base ((n : ℚ).num.toNat) : ℤ) - Nat.log base ((n : ℚ).den) =
      (Nat.log base n : ℤ) := by
    rw [Rat.num_natCast, Rat.den_natCast, Nat.log_one_right, Int.toNat_natCast, Nat.cast_zero,
      sub_zero]
  rw [magnitude, hlog, scale_natCast, if_pos]
  exact_mod_cast Nat.pow_log_le_self base hn.ne'

theorem roundHalfEven_intCast (z : ℤ) : roundHalfEven (z : ℚ) = z := by
  rw [roundHalfEven]
  simp

theorem floor_le_roundHalfEven (q : ℚ) : ⌊q⌋ ≤ roundHalfEven q := by
  rw [roundHalfEven]
  split_ifs <;> omega

/-- The unit in the last place of an integer. -/
theorem unit_natCast {n : ℕ} (hn : 0 < n) :
    max (magnitude 2 |(n : ℚ)| - 52) (-1074) = (Nat.log 2 n : ℤ) - 52 := by
  rw [Nat.abs_cast, magnitude_natCast hn, max_eq_left]
  omega

/-- **An integer below `2⁵³` is a double.** -/
theorem round_natCast {n : ℕ} (hn : n < 2 ^ 53) : round (n : ℚ) = .finite n := by
  rcases Nat.eq_zero_or_pos n with rfl | hpos
  · rw [Nat.cast_zero, round, if_pos rfl]
  · have hlog : Nat.log 2 n ≤ 52 := Nat.lt_succ_iff.mp (Nat.log_lt_of_lt_pow hpos.ne' hn)
    obtain ⟨j, hj⟩ := Nat.le.dest hlog
    have hexp : (Nat.log 2 n : ℤ) - 52 = -(j : ℤ) := by omega
    have hrounded : (roundHalfEven ((n : ℚ) / (1 / (2 : ℚ) ^ j)) : ℚ) * (1 / (2 : ℚ) ^ j) = n := by
      have hdiv : (n : ℚ) / (1 / (2 : ℚ) ^ j) = ((n * 2 ^ j : ℤ) : ℚ) := by
        push_cast
        rw [div_div_eq_mul_div, div_one]
      rw [hdiv, roundHalfEven_intCast]
      push_cast
      rw [mul_one_div, mul_div_assoc, div_self (by positivity), mul_one]
    have hsmall : ¬ (2 : ℚ) ^ 1024 ≤ n := by
      rw [not_le]
      calc (n : ℚ) < 2 ^ 53 := by exact_mod_cast hn
        _ ≤ 2 ^ 1024 := pow_le_pow_right₀ (by norm_num) (by norm_num)
    rw [round, if_neg (Nat.cast_ne_zero.mpr hpos.ne'), unit_natCast hpos, hexp, scale_neg_natCast,
      Nat.abs_cast, Nat.cast_ofNat]
    dsimp only
    rw [hrounded, if_neg hsmall, if_neg (not_lt.mpr (Nat.cast_nonneg n))]

/-- An integer that is not below `2⁵³` is not rounded to a number below it. -/
theorem round_of_le {n : ℕ} (hn : 2 ^ 53 ≤ n) :
    (∃ q : ℚ, 2 ^ 53 ≤ q ∧ round (n : ℚ) = .finite q) ∨ round (n : ℚ) = .infinity false := by
  have hpos : 0 < n := lt_of_lt_of_le (by norm_num) hn
  have hlog : 53 ≤ Nat.log 2 n := (Nat.le_log_iff_pow_le (by decide) hpos.ne').mpr hn
  obtain ⟨j, hj⟩ := Nat.le.dest hlog
  have hexp : (Nat.log 2 n : ℤ) - 52 = ((j + 1 : ℕ) : ℤ) := by omega
  have hrounded : (2 : ℚ) ^ 53 ≤
      (roundHalfEven ((n : ℚ) / (2 : ℚ) ^ (j + 1)) : ℚ) * (2 : ℚ) ^ (j + 1) := by
    have hfloor : (2 : ℤ) ^ 52 ≤ ⌊(n : ℚ) / (2 : ℚ) ^ (j + 1)⌋ := by
      rw [Int.le_floor, le_div_iff₀ (by positivity)]
      have hle : 2 ^ (52 + (j + 1)) ≤ n := by
        have := Nat.pow_log_le_self 2 hpos.ne'
        rwa [show Nat.log 2 n = 52 + (j + 1) by omega] at this
      rw [Int.cast_pow, Int.cast_ofNat, ← pow_add]
      exact_mod_cast hle
    have hround : ((2 : ℤ) ^ 52 : ℚ) ≤ (roundHalfEven ((n : ℚ) / (2 : ℚ) ^ (j + 1)) : ℚ) := by
      exact_mod_cast hfloor.trans (floor_le_roundHalfEven _)
    calc (2 : ℚ) ^ 53 ≤ 2 ^ 52 * 2 ^ (j + 1) := by
          rw [← pow_add]
          exact pow_le_pow_right₀ (by norm_num) (by omega)
      _ ≤ _ := by
          refine mul_le_mul_of_nonneg_right ?_ (by positivity)
          exact_mod_cast hround
  rw [round, if_neg (Nat.cast_ne_zero.mpr hpos.ne'), unit_natCast hpos, hexp, scale_natCast,
    Nat.abs_cast, Nat.cast_pow, Nat.cast_ofNat]
  dsimp only
  rw [if_neg (not_lt.mpr (Nat.cast_nonneg n)), decide_eq_false (not_lt.mpr (Nat.cast_nonneg n))]
  split
  · exact Or.inr rfl
  · exact Or.inl ⟨_, hrounded, rfl⟩

/-- A negative integer is not rounded to a positive number. -/
theorem round_neg {n : ℕ} (hn : 0 < n) :
    (∃ q : ℚ, q ≤ 0 ∧ round (-(n : ℚ)) = .finite q) ∨ round (-(n : ℚ)) = .infinity true := by
  have hneg : -(n : ℚ) < 0 := neg_lt_zero.mpr (by exact_mod_cast hn)
  rw [round, if_neg hneg.ne]
  dsimp only
  rw [if_pos hneg, decide_eq_true hneg]
  split
  · exact Or.inr rfl
  · refine Or.inl ⟨_, Left.neg_nonpos_iff.mpr ?_, rfl⟩
    have hfloor : 0 ≤ ⌊|-(n : ℚ)| / scale 2 (max (magnitude 2 |-(n : ℚ)| - 52) (-1074))⌋ :=
      Int.floor_nonneg.mpr (div_nonneg (abs_nonneg _) (scale_nonneg _ _))
    refine mul_nonneg ?_ (scale_nonneg _ _)
    exact_mod_cast hfloor.trans (floor_le_roundHalfEven _)

/-! ## Printing -/

/-- A decimal that reads back as an integer below `2⁵³` is that integer. -/
theorem eq_of_round_eq {m n : ℕ} (hn : n < 2 ^ 53) (h : round (m : ℚ) = .finite n) : m = n := by
  by_cases hm : m < 2 ^ 53
  · rw [round_natCast hm, JsNumber.finite.injEq] at h
    exact_mod_cast h
  · rcases round_of_le (not_lt.mp hm) with ⟨q, hq, hround⟩ | hround
    · obtain rfl := JsNumber.finite.inj (hround.symm.trans h)
      exact absurd hn (not_lt.mpr (by exact_mod_cast hq))
    · cases hround.symm.trans h

theorem mem_neighbours_nearest (q : ℚ) : (roundHalfEven q).toNat ∈ neighbours q :=
  List.mem_cons_self

/-- The decimals that are tried for an integer are integers, and with all of its digits it is found
at the latest: what is found is read back as the integer. -/
theorem shortestFrom_natCast {n : ℕ} (hpos : 0 < n) (hround : round (n : ℚ) = .finite n)
    (k fuel : ℕ) (hk : k ≤ Nat.log 10 n + 1) :
    ∃ s k' j, shortestFrom (n : ℚ) k fuel = (s, k', ((k' + j : ℕ) : ℤ)) ∧
      k' + j ≤ Nat.log 10 n + 2 ∧ round ((s * 10 ^ j : ℕ) : ℚ) = .finite n := by
  have hself : (roundHalfEven (n : ℚ)).toNat = n := by
    rw [← Int.cast_natCast n, roundHalfEven_intCast, Int.toNat_natCast]
  induction fuel generalizing k with
  | zero =>
    refine ⟨n, k, 0, ?_, by omega, by rwa [pow_zero, mul_one]⟩
    rw [shortestFrom, hself]
    rfl
  | succ fuel ih =>
    obtain ⟨j, hj⟩ := Nat.le.dest hk
    have hexp : ((Nat.log 10 n : ℤ) + 1) - k = (j : ℤ) := by omega
    rw [shortestFrom, magnitude_natCast hpos, hexp, scale_natCast]
    split
    · rename_i s hfound
      have hdecide := List.find?_some hfound
      have hread : round ((s * 10 ^ j : ℕ) : ℚ) = .finite n := by
        rw [Nat.cast_mul]
        exact of_decide_eq_true hdecide
      by_cases hten : s = 10 ^ k
      · rw [if_pos hten]
        refine ⟨1, 1, Nat.log 10 n + 1, ?_, by omega, ?_⟩
        · push_cast
          rw [show (Nat.log 10 n : ℤ) + 1 + 1 = 1 + (Nat.log 10 n + 1) by omega]
        · rw [← hj, pow_add, one_mul, ← hten]
          exact hread
      · rw [if_neg hten]
        exact ⟨s, k, j, by rw [hj]; push_cast; rfl, by omega, hread⟩
    · rename_i hmissed
      have hlt : k < Nat.log 10 n + 1 := by
        by_contra hge
        obtain rfl : j = 0 := by omega
        rw [pow_zero, Nat.cast_one, div_one] at hmissed
        have hnearest := List.find?_eq_none.mp hmissed _ (mem_neighbours_nearest n)
        rw [hself, mul_one] at hnearest
        exact hnearest (decide_eq_true hround)
      exact ih (k + 1) hlt

/-- **An integer that is a double prints as an integer** that is read back as the double, up to
twenty digits. -/
theorem exists_toString_natCast {n : ℕ} (hround : round (n : ℚ) = .finite n)
    (hn : n < 10 ^ 20) :
    ∃ m : ℕ, (JsNumber.finite n).toString = decimal m ∧ round (m : ℚ) = .finite n := by
  rcases Nat.eq_zero_or_pos n with rfl | hpos
  · exact ⟨0, rfl, hround⟩
  · have hlog : Nat.log 10 n < 20 := Nat.log_lt_of_lt_pow hpos.ne' hn
    obtain ⟨s, k, j, hshortest, hle, hread⟩ := shortestFrom_natCast hpos hround 1 17 (by omega)
    have hs : 0 < s := Nat.pos_of_ne_zero fun hzero ↦ by
      rw [hzero, Nat.zero_mul, Nat.cast_zero, round, if_pos rfl, JsNumber.finite.injEq] at hread
      exact hpos.ne (by exact_mod_cast hread)
    refine ⟨s * 10 ^ j, ?_, hread⟩
    rw [JsNumber.toString, if_neg (Nat.cast_ne_zero.mpr hpos.ne'),
      if_neg (not_lt.mpr (Nat.cast_nonneg n)), positiveToString, shortest, hshortest]
    dsimp only
    rw [if_pos ⟨by omega, by omega⟩, show (((k + j : ℕ) : ℤ) - k).toNat = j by omega,
      ← decimal_mul_pow hs]

/-- **An integer below `2⁵³` prints as its digits.** -/
theorem toString_natCast {n : ℕ} (hn : n < 2 ^ 53) : (JsNumber.finite n).toString = decimal n := by
  obtain ⟨m, hm, hread⟩ := exists_toString_natCast (round_natCast hn) (hn.trans (by norm_num))
  rw [hm, eq_of_round_eq hn hread]

/-! ## Reading -/

/-- `parseInt(text, 10)`. -/
def parseInt (text : JsString) : JsNumber :=
  let text := text.dropWhile JsString.isTrimmed
  let negative := text.head? = some 0x2D
  let digits := (if negative ∨ text.head? = some 0x2B then text.tail else text).takeWhile isDigit
  if digits = [] then .nan
  else round (if negative then -(digitsValue digits : ℚ) else digitsValue digits)

/-- **The digits of an integer below `2⁵³` are read as the integer.** -/
theorem parseInt_decimal {n : ℕ} (hn : n < 2 ^ 53) : parseInt (decimal n) = .finite n := by
  have hdigits : ∀ d < 10, JsString.isTrimmed (digitUnit d) = false ∧ digitUnit d ≠ 0x2D ∧
      digitUnit d ≠ 0x2B := by decide
  obtain ⟨u, rest, hu⟩ := List.exists_cons_of_ne_nil (decimal_ne_nil n)
  obtain ⟨d, hd, rfl⟩ := exists_digitUnit_of_mem_decimal (n := n) (hu ▸ List.mem_cons_self)
  obtain ⟨htrim, hminus, hplus⟩ := hdigits d hd
  have hdrop : (decimal n).dropWhile JsString.isTrimmed = decimal n := by
    rw [hu, List.dropWhile_cons_of_neg (by rw [htrim]; exact Bool.false_ne_true)]
  have hhead : (decimal n).head? = some (digitUnit d) := by rw [hu, List.head?_cons]
  have hall : (decimal n).takeWhile isDigit = decimal n :=
    List.takeWhile_eq_self_iff.mpr fun u hu ↦ isDigit_of_mem_decimal hu
  have hsign : ¬ ((decimal n).head? = some 0x2D ∨ (decimal n).head? = some 0x2B) := by
    rw [hhead, Option.some.injEq, Option.some.injEq]
    exact not_or.mpr ⟨hminus, hplus⟩
  rw [parseInt, hdrop, if_neg hsign, hall, if_neg (decimal_ne_nil n), if_neg (not_or.mp hsign).1,
    digitsValue_decimal, round_natCast hn]

theorem parseInt_cases (text : JsString) :
    parseInt text = .nan ∨
      ∃ n : ℕ, parseInt text = round (n : ℚ) ∨ 0 < n ∧ parseInt text = round (-(n : ℚ)) := by
  rw [parseInt]
  generalize List.takeWhile isDigit _ = digits
  by_cases hdigits : digits = []
  · exact Or.inl (if_pos hdigits)
  · refine Or.inr ⟨digitsValue digits, ?_⟩
    rw [if_neg hdigits]
    split
    · rcases Nat.eq_zero_or_pos (digitsValue digits) with hzero | hpos
      · rw [hzero, Nat.cast_zero, neg_zero]
        exact Or.inl rfl
      · exact Or.inr ⟨hpos, rfl⟩
    · exact Or.inl rfl

end JsNumber
