import PostgresChat.Js.Shortest
import PostgresChat.Js.Stringify

/-!
# Numbers are read back

`Number::toString` writes the digits that the printer has chosen in one of four ways: as an integer,
with a point among the digits, with a point and zeros in front of them, or with an exponent. Each of
them is a number of JSON's grammar with the value of the decimal that was chosen, and that one is
rounded to the double. So every finite double is read back from the text that `JSON.stringify`
writes for it (`readable_finite`), and every value with finite numbers is.
-/

namespace Json

open JsString (lit)
open JsNumber (decimal scale scale_eq_zpow Chosen)

/-! ## The parts of a number -/

theorem takeWhile_append_of_all {p : UInt16 → Bool} {s t : JsString} (hs : s.all p = true)
    (ht : ∀ u, t.head? = some u → p u = false) : (s ++ t).takeWhile p = s := by
  rw [List.takeWhile_append_of_pos (List.all_eq_true.mp hs)]
  rcases t with _ | ⟨u, t⟩
  · rw [List.takeWhile_nil, List.append_nil]
  · rw [List.takeWhile_cons_of_neg (by rw [ht u rfl]; exact Bool.false_ne_true), List.append_nil]

theorem dropWhile_append_of_all {p : UInt16 → Bool} {s t : JsString} (hs : s.all p = true)
    (ht : ∀ u, t.head? = some u → p u = false) : (s ++ t).dropWhile p = t := by
  rw [List.dropWhile_append_of_pos (List.all_eq_true.mp hs)]
  rcases t with _ | ⟨u, t⟩
  · rfl
  · exact List.dropWhile_cons_of_neg (by rw [ht u rfl]; exact Bool.false_ne_true)

/-- An exponent part begins with neither a digit nor a point. -/
theorem head?_of_exponentOf {s : JsString} {e : ℤ} (h : exponentOf s = some e) :
    (∀ u, s.head? = some u → isDigit u = false) ∧ s.head? ≠ some 0x2E := by
  rcases s with _ | ⟨u, s⟩
  · exact ⟨nofun, nofun⟩
  · rw [exponentOf, Option.ite_none_right_eq_some] at h
    rcases h.1.1 with rfl | rfl
    · exact ⟨by rintro _ ⟨⟩; rfl, by rintro ⟨⟩⟩
    · exact ⟨by rintro _ ⟨⟩; rfl, by rintro ⟨⟩⟩

/-- A sign, the digits before the point, the point and the digits behind it, and an exponent. -/
def numberText (negative : Bool) (whole fraction exponent : JsString) : JsString :=
  (if negative then [0x2D] else []) ++
    (whole ++ ((if fraction = [] then [] else 0x2E :: fraction) ++ exponent))

/-- **The grammar of numbers.** -/
theorem numberOf_numberText (negative : Bool) {whole fraction exponent : JsString} {e : ℤ}
    (hwhole : whole.all isDigit = true) (hne : whole ≠ [])
    (hzero : whole.head? = some 0x30 → whole = [0x30]) (hfraction : fraction.all isDigit = true)
    (hexponent : exponentOf exponent = some e) :
    numberOf (numberText negative whole fraction exponent) =
      some (JsNumber.round (if negative
        then -(digitsValue (whole ++ fraction) * scale 10 (e - fraction.length))
        else digitsValue (whole ++ fraction) * scale 10 (e - fraction.length))) := by
  obtain ⟨hdigit, hpoint⟩ := head?_of_exponentOf hexponent
  obtain ⟨rest, hrest⟩ :
    ∃ rest, (if fraction = [] then [] else 0x2E :: fraction) ++ exponent = rest := ⟨_, rfl⟩
  have hsign : ∀ t : JsString, (whole ++ t).head? ≠ some 0x2D := by
    intro t hhead
    rw [List.head?_append_of_ne_nil _ hne] at hhead
    have := List.all_eq_true.mp hwhole _ (List.mem_of_head? hhead)
    cases this
  have hrestHead : ∀ u, rest.head? = some u → isDigit u = false := by
    intro u hu
    rw [← hrest] at hu
    split at hu
    · exact hdigit u hu
    · obtain rfl := Option.some.inj hu
      rfl
  have hwholeRead : (whole ++ rest).takeWhile isDigit = whole :=
    takeWhile_append_of_all hwhole hrestHead
  have hrestRead : (whole ++ rest).dropWhile isDigit = rest :=
    dropWhile_append_of_all hwhole hrestHead
  -- The number without its sign.
  have hbody : (if (numberText negative whole fraction exponent).head? = some 0x2D
      then (numberText negative whole fraction exponent).tail
      else numberText negative whole fraction exponent) = whole ++ rest := by
    rw [numberText, hrest]
    rcases negative with _ | _
    · exact if_neg (hsign rest)
    · rfl
  have hnegative : (numberText negative whole fraction exponent).head? = some 0x2D ↔
      negative = true := by
    rw [numberText, hrest]
    rcases negative with _ | _
    · exact iff_of_false (hsign rest) Bool.false_ne_true
    · exact iff_of_true rfl rfl
  rw [numberOf]
  dsimp only
  rw [hbody, hwholeRead, hrestRead]
  by_cases hnil : fraction = []
  · -- There is no point.
    obtain rfl := hnil
    rw [if_pos rfl, List.nil_append] at hrest
    subst hrest
    rw [if_neg hpoint, if_neg hpoint, hexponent, List.append_nil, Option.map_some,
      if_neg (by tauto)]
    simp only [hnegative]
  · rw [if_neg hnil, List.cons_append] at hrest
    have hhead : rest.head? = some 0x2E := by rw [← hrest]; rfl
    have htail : rest.tail = fraction ++ exponent := by rw [← hrest]; rfl
    rw [if_pos hhead, if_pos hhead, htail, takeWhile_append_of_all hfraction hdigit,
      dropWhile_append_of_all hfraction hdigit, hexponent, Option.map_some, if_neg (by tauto)]
    simp only [hnegative]

/-! ## Digits -/

theorem digitsValue_append (s t : JsString) :
    digitsValue (s ++ t) = digitsValue s * 10 ^ t.length + digitsValue t := by
  have hfrom : ∀ n, t.foldl (fun n u ↦ 10 * n + (u.toNat - 0x30)) n =
      n * 10 ^ t.length + digitsValue t := by
    induction t with
    | nil => intro n; simp [digitsValue]
    | cons u t ih =>
      intro n
      rw [digitsValue, List.foldl_cons, List.foldl_cons, ih, ih (10 * 0 + _), List.length_cons,
        pow_succ]
      ring
  rw [digitsValue, List.foldl_append]
  exact hfrom _

theorem all_isDigit_replicate (n : ℕ) : (List.replicate n (0x30 : UInt16)).all isDigit = true :=
  List.all_eq_true.mpr fun _ hu ↦ by rw [List.eq_of_mem_replicate hu]; rfl

theorem digitsValue_replicate (n : ℕ) : digitsValue (List.replicate n (0x30 : UInt16)) = 0 := by
  induction n with
  | zero => rfl
  | succ n ih =>
    rw [List.replicate_succ']
    rw [digitsValue_append, ih]
    rfl

theorem all_isDigit_decimal (n : ℕ) : (decimal n).all isDigit = true :=
  List.all_eq_true.mpr fun _ hu ↦ JsNumber.isDigit_of_mem_decimal hu

/-- The number of digits. -/
theorem length_decimal {n k : ℕ} (hk : 1 ≤ k) (hle : 10 ^ (k - 1) ≤ n) (hlt : n < 10 ^ k) :
    (decimal n).length = k := by
  rw [decimal, List.length_map]
  have hupper := (Nat.length_toDigits_le_iff (b := 10) (by norm_num) hk).mpr hlt
  refine le_antisymm hupper ?_
  by_contra hshort
  rw [not_le] at hshort
  have hpos := Nat.length_toDigits_pos (b := 10) (n := n)
  have hlower := (Nat.length_toDigits_le_iff (b := 10) (n := n) (k := k - 1) (by norm_num)
    (by omega)).mp (by omega)
  omega

theorem head?_decimal_ne {n : ℕ} (hn : 0 < n) : (decimal n).head? ≠ some 0x30 :=
  fun h ↦ hn.ne' (eq_zero_of_head?_decimal h)

theorem exponentOf_plus {digits : JsString} (hne : digits ≠ []) (hall : digits.all isDigit = true) :
    exponentOf (0x65 :: 0x2B :: digits) = some (digitsValue digits : ℤ) :=
  if_pos ⟨Or.inl rfl, hne, hall⟩

theorem exponentOf_minus {digits : JsString} (hne : digits ≠ [])
    (hall : digits.all isDigit = true) :
    exponentOf (0x65 :: 0x2D :: digits) = some (-(digitsValue digits : ℤ)) :=
  if_pos ⟨Or.inl rfl, hne, hall⟩

/-- `e+` or `e-` and digits. -/
theorem exponentOf_decimal (n : ℤ) :
    exponentOf (lit (if 0 < n then "e+" else "e-") ++ decimal (n - 1).natAbs) =
      some (n - 1) := by
  have hvalue : (digitsValue (decimal (n - 1).natAbs) : ℤ) = (n - 1).natAbs := by
    exact_mod_cast JsNumber.digitsValue_decimal (n - 1).natAbs
  have hne := JsNumber.decimal_ne_nil (n - 1).natAbs
  have hall := all_isDigit_decimal (n - 1).natAbs
  split_ifs with hpos
  · refine (exponentOf_plus hne hall).trans (congrArg some ?_)
    omega
  · refine (exponentOf_minus hne hall).trans (congrArg some ?_)
    omega

/-! ## What `Number::toString` writes -/

/-- The text of a positive number in its parts. -/
structure Written (text : JsString) (v : ℚ) (whole fraction exponent : JsString) (e : ℤ) :
    Prop where
  text_eq : text = numberText false whole fraction exponent
  all_whole : whole.all isDigit = true
  whole_ne_nil : whole ≠ []
  head?_whole : whole.head? = some 0x30 → whole = [0x30]
  all_fraction : fraction.all isDigit = true
  exponentOf_eq : exponentOf exponent = some e
  value_eq : digitsValue (whole ++ fraction) * scale 10 (e - fraction.length) = v

/-- **The four formats.** -/
theorem exists_written {x : ℚ} {s k : ℕ} {n : ℤ} (hshortest : JsNumber.shortest x = (s, k, n))
    (h : Chosen x s k n) :
    ∃ whole fraction exponent e,
      Written (JsNumber.positiveToString x) (s * scale 10 (n - k)) whole fraction exponent e := by
  have hpos : 0 < s := lt_of_lt_of_le (by positivity) h.le
  have hlength := length_decimal h.pos h.le h.lt
  have hdigits := all_isDigit_decimal s
  have hne := JsNumber.decimal_ne_nil s
  have hvalue : digitsValue (decimal s) = s := JsNumber.digitsValue_decimal s
  have htake : ∀ m : ℕ, ((decimal s).take m).all isDigit = true := fun m ↦
    List.all_eq_true.mpr fun u hu ↦ List.all_eq_true.mp hdigits u (List.mem_of_mem_take hu)
  have hdrop : ∀ m : ℕ, ((decimal s).drop m).all isDigit = true := fun m ↦
    List.all_eq_true.mpr fun u hu ↦ List.all_eq_true.mp hdigits u (List.mem_of_mem_drop hu)
  have htakeNe : ∀ m : ℕ, 0 < m → (decimal s).take m ≠ [] := by
    intro m hm hnil
    rw [List.take_eq_nil_iff] at hnil
    exact hnil.elim hm.ne' hne
  have htakeHead : ∀ m : ℕ, 0 < m → ((decimal s).take m).head? ≠ some 0x30 := by
    intro m hm
    rw [List.head?_take, if_neg hm.ne']
    exact head?_decimal_ne hpos
  obtain ⟨exponent, hexponent, hexponentOf⟩ : ∃ exponent,
      lit (if 0 < n then "e+" else "e-") ++ decimal (n - 1).natAbs = exponent ∧
        exponentOf exponent = some (n - 1) := ⟨_, rfl, exponentOf_decimal n⟩
  rw [JsNumber.positiveToString, hshortest]
  dsimp only
  rw [hexponent]
  split_ifs with hint hpoint hsmall hone
  · -- An integer, with zeros in place of the digits that are not needed.
    refine ⟨decimal s ++ List.replicate (n - k).toNat 0x30, [], [], 0, ?_, ?_, ?_, ?_, rfl, rfl, ?_⟩
    · rw [numberText, if_neg Bool.false_ne_true, if_pos rfl, List.nil_append, List.append_nil,
        List.append_nil]
    · rw [List.all_append, hdigits, all_isDigit_replicate]
      rfl
    · exact List.append_ne_nil_of_left_ne_nil hne _
    · intro hhead
      rw [List.head?_append_of_ne_nil _ hne] at hhead
      exact absurd hhead (head?_decimal_ne hpos)
    · obtain ⟨j, hj⟩ : ∃ j : ℕ, n - k = j := ⟨(n - k).toNat, by omega⟩
      rw [List.append_nil, digitsValue_append, hvalue, digitsValue_replicate, List.length_replicate,
        hj, Int.toNat_natCast, List.length_nil, scale_eq_zpow, scale_eq_zpow, zpow_natCast]
      push_cast
      simp
  · -- The point is among the digits.
    obtain ⟨m, hm⟩ : ∃ m : ℕ, n = m := ⟨n.toNat, by omega⟩
    subst hm
    have hmk : m < k := by omega
    have hdropNe : (decimal s).drop m ≠ [] := by
      rw [Ne, List.drop_eq_nil_iff, hlength]
      omega
    refine ⟨(decimal s).take m, (decimal s).drop m, [], 0, ?_, htake m, htakeNe m (by omega),
      fun hhead ↦ absurd hhead (htakeHead m (by omega)), hdrop m, rfl, ?_⟩
    · rw [numberText, if_neg Bool.false_ne_true, if_neg hdropNe, List.append_nil, List.nil_append,
        Int.toNat_natCast, List.append_assoc]
      rfl
    · rw [List.take_append_drop, hvalue, List.length_drop, hlength, Nat.cast_sub hmk.le]
      congr 2
      omega
  · -- The point and zeros are in front of the digits.
    obtain ⟨m, hm⟩ : ∃ m : ℕ, -n = m := ⟨(-n).toNat, by omega⟩
    obtain rfl : n = -m := by omega
    rw [neg_neg, Int.toNat_natCast]
    refine ⟨[0x30], List.replicate m 0x30 ++ decimal s, [], 0, ?_, rfl, List.cons_ne_nil _ _,
      fun _ ↦ rfl, ?_, rfl, ?_⟩
    · rw [numberText, if_neg Bool.false_ne_true, if_neg (List.append_ne_nil_of_right_ne_nil _ hne),
        List.append_nil, List.nil_append, List.append_assoc]
      rfl
    · rw [List.all_append, hdigits, all_isDigit_replicate]
      rfl
    · have hzeros : digitsValue ([0x30] ++ (List.replicate m 0x30 ++ decimal s)) = s := by
        rw [← List.append_assoc, show ([0x30] : JsString) ++ List.replicate m 0x30 =
          List.replicate (m + 1) 0x30 from rfl, digitsValue_append, digitsValue_replicate, hvalue,
          Nat.zero_mul, Nat.zero_add]
      rw [hzeros, List.length_append, List.length_replicate, hlength]
      congr 2
      push_cast
      omega
  · -- One digit and an exponent.
    refine ⟨decimal s, [], exponent, n - 1, ?_, hdigits, hne,
      fun hhead ↦ absurd hhead (head?_decimal_ne hpos), rfl, hexponentOf, ?_⟩
    · rw [numberText, if_neg Bool.false_ne_true, if_pos rfl, List.nil_append, List.nil_append]
    · rw [List.append_nil, hvalue, hone, List.length_nil, Nat.cast_zero, sub_zero, Nat.cast_one]
  · -- Several digits, with the point behind the first, and an exponent.
    have hdropNe : (decimal s).drop 1 ≠ [] := by
      rw [Ne, List.drop_eq_nil_iff, hlength]
      have := h.pos
      omega
    refine ⟨(decimal s).take 1, (decimal s).drop 1, exponent, n - 1, ?_, htake 1, htakeNe 1 one_pos,
      fun hhead ↦ absurd hhead (htakeHead 1 one_pos), hdrop 1, hexponentOf, ?_⟩
    · rw [numberText, if_neg Bool.false_ne_true, if_neg hdropNe, List.nil_append, List.append_assoc,
        List.append_assoc]
      rfl
    · rw [List.take_append_drop, hvalue, List.length_drop, hlength, Nat.cast_sub h.pos]
      congr 2
      push_cast
      omega

/-! ## Finite doubles are read back -/

theorem all_isWordUnit_of_isDigit {s : JsString} (h : s.all isDigit = true) :
    s.all isWordUnit = true := by
  refine List.all_eq_true.mpr fun u hu ↦ ?_
  rw [isWordUnit, List.all_eq_true.mp h u hu]
  rfl

theorem all_isWordUnit_of_exponentOf {s : JsString} {e : ℤ} (h : exponentOf s = some e) :
    s.all isWordUnit = true := by
  rcases s with _ | ⟨u, s⟩
  · rfl
  · rw [exponentOf, Option.ite_none_right_eq_some] at h
    obtain ⟨⟨hu, -, hdigits⟩, -⟩ := h
    have hletter : isWordUnit u = true := by
      rcases hu with rfl | rfl
      · rfl
      · rfl
    rw [List.all_cons, hletter, Bool.true_and]
    split_ifs at hdigits with hsign
    · rcases s with _ | ⟨v, s⟩
      · rfl
      · rw [List.tail_cons] at hdigits
        rw [List.all_cons, all_isWordUnit_of_isDigit hdigits, Bool.and_true]
        rcases hsign with hsign | hsign
        · obtain rfl := Option.some.inj hsign
          rfl
        · obtain rfl := Option.some.inj hsign
          rfl
    · exact all_isWordUnit_of_isDigit hdigits

theorem scalarOf_of_numberOf {s : JsString} {n : JsNumber} (h : numberOf s = some n) :
    scalarOf s = some (number n) := by
  have hne : ∀ w : JsString, numberOf w = none → s ≠ w := by
    rintro w hw rfl
    rw [h] at hw
    cases hw
  rw [scalarOf, if_neg (hne _ rfl), if_neg (hne _ rfl), if_neg (hne _ rfl), h, Option.map_some]

variable {whole fraction exponent text : JsString} {e : ℤ} {v x : ℚ}

/-- The text, or the text with a sign in front of it, is read as what its value is rounded to. -/
theorem Written.readable (h : Written text v whole fraction exponent e) (hv : 0 < v)
    (hround : JsNumber.round v = .finite x) (negative : Bool)
    (htext : stringifyNumber (.finite (if negative then -x else x)) =
      (if negative then [0x2D] else []) ++ text) :
    Readable (.finite (if negative then -x else x)) := by
  have hparts : (if negative then [0x2D] else []) ++ text =
      numberText negative whole fraction exponent := by
    rw [h.text_eq, numberText, numberText, if_neg Bool.false_ne_true, List.nil_append]
  rw [hparts] at htext
  constructor
  · rw [htext, numberText]
    exact List.append_ne_nil_of_right_ne_nil _
      (List.append_ne_nil_of_left_ne_nil h.whole_ne_nil _)
  · have hsign : (if negative then [0x2D] else [] : JsString).all isWordUnit = true := by
      split <;> rfl
    have hpoint : (if fraction = [] then [] else 0x2E :: fraction : JsString).all isWordUnit =
        true := by
      split
      · rfl
      · rw [List.all_cons, all_isWordUnit_of_isDigit h.all_fraction]
        rfl
    rw [htext, numberText, List.all_append, List.all_append, List.all_append, hsign, hpoint,
      all_isWordUnit_of_isDigit h.all_whole, all_isWordUnit_of_exponentOf h.exponentOf_eq]
    rfl
  · refine scalarOf_of_numberOf ?_
    rw [htext, numberOf_numberText negative h.all_whole h.whole_ne_nil h.head?_whole h.all_fraction
      h.exponentOf_eq, h.value_eq]
    rcases negative with _ | _
    · exact congrArg some hround
    · exact congrArg some (JsNumber.round_neg_of_pos hv hround)

/-- **Every finite double is read back** from what `JSON.stringify` writes for it. -/
theorem readable_finite (hx : JsNumber.IsDouble x) : Readable (.finite x) := by
  have hwritten : ∀ y : ℚ, JsNumber.IsDouble y → 0 < y → ∃ v whole fraction exponent e, 0 < v ∧
      JsNumber.round v = .finite y ∧
        Written (JsNumber.positiveToString y) v whole fraction exponent e := by
    intro y hy hpos
    obtain ⟨s, k, n, hshortest, hchosen⟩ := JsNumber.shortest_spec hy hpos
    obtain ⟨whole, fraction, exponent, e, h⟩ := exists_written hshortest hchosen
    have hs : 0 < s := lt_of_lt_of_le (by positivity) hchosen.le
    have hscale : (0 : ℚ) < scale 10 (n - k) := by
      rw [scale_eq_zpow]
      exact zpow_pos (by norm_num) _
    refine ⟨_, whole, fraction, exponent, e, mul_pos (by exact_mod_cast hs) hscale,
      hchosen.round, h⟩
  rcases lt_trichotomy x 0 with hneg | rfl | hpos
  · obtain ⟨v, whole, fraction, exponent, e, hv, hround, h⟩ :=
      hwritten (-x) hx.neg (neg_pos.mpr hneg)
    have hread := h.readable hv hround true (by
      rw [if_pos rfl, if_pos rfl, neg_neg, stringifyNumber, JsNumber.toString, if_neg hneg.ne,
        if_pos hneg]
      rfl)
    rwa [if_pos rfl, neg_neg] at hread
  · exact readable_natCast (n := 0) (by rw [Nat.cast_zero, JsNumber.round, if_pos rfl])
      (by norm_num)
  · obtain ⟨v, whole, fraction, exponent, e, hv, hround, h⟩ := hwritten x hx hpos
    have hread := h.readable hv hround false (by
      rw [if_neg Bool.false_ne_true, if_neg Bool.false_ne_true, stringifyNumber, JsNumber.toString,
        if_neg hpos.ne', if_neg (not_lt.mpr hpos.le)]
      rfl)
    rwa [if_neg Bool.false_ne_true] at hread

end Json
