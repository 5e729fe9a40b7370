import PostgresChat.Chat.History
import PostgresChat.Js.Doubles
import PostgresChat.Js.Numerals

/-!
# Cursors as parameters

Two statements compare `seq` with a number that a client has chosen: the history of a `join_room`
and the page of `getMessages`. The number is checked for `NaN`, and that of `getMessages` to be at
least one; then it is printed, and the server reads the text as a `BIGINT`.

The text of an integer between `-2⁶³` and `2⁶³` is one that the server reads: a double next to a
bound is far enough from it for the digits that are printed. The text of a fraction, of an infinity
or of a larger number is not, nor is that of `-2⁶³`, whose digits are rounded away from zero. What
`getMessages` reads from a text of digits is an integer, but it may be as large.
-/

namespace PostgresChat

/-! ## Integers as parameters -/

/-- What the guards are to ensure of a number that is bound to a `BIGINT` parameter. -/
structure ValidParameter (n : JsNumber) : Prop where
  inRange : ∃ z : ℤ, n = .finite z ∧ -2 ^ 63 ≤ z ∧ z < 2 ^ 63
  parses : (bigintParam n).isSome

theorem parseBigint_neg_decimal {m : ℕ} (hm : m < 2 ^ 63) :
    parseBigint (JsString.lit "-" ++ JsNumber.decimal m) = some (-(m : ℤ)) := by
  have hlit : JsString.lit "-" ++ JsNumber.decimal m = 0x2D :: JsNumber.decimal m := rfl
  rw [hlit, parseBigint, List.head?_cons, if_pos rfl, List.tail_cons, parseDecimal_decimal]
  refine Option.filter_eq_some_iff.mpr ⟨rfl, ?_⟩
  rw [decide_eq_true_iff]
  omega

/-- The digits printed for a double below `2⁶³` spell a number below `2⁶³`. -/
theorem exists_digits {n : ℕ} (hround : JsNumber.round (n : ℚ) = .finite n) (hn : n < 2 ^ 63) :
    ∃ m < 2 ^ 63, (JsNumber.finite n).toString = JsNumber.decimal m := by
  obtain ⟨m, hm, hread⟩ := JsNumber.exists_toString_natCast hround (hn.trans (by norm_num))
  have hlt : m < 2 ^ 63 - 512 :=
    (JsNumber.exists_round_lt_iff m).mp ⟨n, by exact_mod_cast hn, hread⟩
  exact ⟨m, by omega, hm⟩

theorem bigintParam_intCast {z : ℤ} (hround : JsNumber.round (z : ℚ) = .finite z)
    (hlow : -2 ^ 63 < z) (hhigh : z < 2 ^ 63) : (bigintParam (.finite z)).isSome := by
  obtain ⟨n, rfl | rfl⟩ := Int.eq_nat_or_neg z
  · rw [Int.cast_natCast] at hround ⊢
    obtain ⟨m, hm, htext⟩ := exists_digits hround (by omega)
    rw [bigintParam, htext, parseBigint_decimal hm, Option.isSome_some]
  · rcases Nat.eq_zero_or_pos n with rfl | hpos
    · decide
    · have hneg : -(n : ℚ) < 0 := neg_lt_zero.mpr (by exact_mod_cast hpos)
      rw [Int.cast_neg, Int.cast_natCast] at hround ⊢
      have hdouble : JsNumber.round (n : ℚ) = .finite n := by
        have h := JsNumber.round_of_isDouble (JsNumber.isDouble_of_round hround).neg
        rwa [neg_neg] at h
      obtain ⟨m, hm, htext⟩ := exists_digits hdouble (by omega)
      have hprinted : (JsNumber.finite (-(n : ℚ))).toString =
          JsString.lit "-" ++ (JsNumber.finite n).toString := by
        rw [JsNumber.toString, if_neg hneg.ne, if_pos hneg, neg_neg, JsNumber.toString,
          if_neg (Nat.cast_ne_zero.mpr hpos.ne'), if_neg (not_lt.mpr (Nat.cast_nonneg n))]
      rw [bigintParam, hprinted, htext, parseBigint_neg_decimal hm, Option.isSome_some]

/-- The least integer of the type is printed with digits beyond the type. -/
theorem bigintParam_min : bigintParam (.finite ((-2 ^ 63 : ℤ) : ℚ)) = none := by decide +kernel

/-- **Which doubles are parameters.** -/
theorem validParameter_iff {n : JsNumber} (hn : Json.IsRounded n) :
    ValidParameter n ↔ ∃ z : ℤ, n = .finite z ∧ -2 ^ 63 < z ∧ z < 2 ^ 63 := by
  constructor
  · rintro ⟨⟨z, rfl, hlow, hhigh⟩, hparses⟩
    refine ⟨z, rfl, lt_of_le_of_ne hlow ?_, hhigh⟩
    rintro rfl
    rw [bigintParam_min] at hparses
    cases hparses
  · rintro ⟨z, rfl, hlow, hhigh⟩
    obtain ⟨q, hq⟩ := hn
    exact ⟨⟨z, rfl, hlow.le, hhigh⟩, bigintParam_intCast (JsNumber.round_round hq.symm) hlow hhigh⟩

/-! ## The two statements -/

theorem isSome_selectHistory {n : JsNumber} {roomId : RoomId} (db : Db)
    (hroom : (Uuid.parse roomId).isSome) :
    (db.exec (.selectHistory roomId n)).isSome = (bigintParam n).isSome := by
  obtain ⟨r, hr⟩ := Option.isSome_iff_exists.mp hroom
  cases hn : bigintParam n <;> simp [Db.exec, hr, hn]

theorem isSome_selectOlder {n : JsNumber} {roomId : RoomId} (db : Db)
    (limitStr : Option JsString) (hroom : (Uuid.parse roomId).isSome) :
    (db.selectOlder roomId (some n) (pageLimit limitStr)).isSome = (bigintParam n).isSome := by
  obtain ⟨r, hr⟩ := Option.isSome_iff_exists.mp hroom
  obtain ⟨l, -, hl, hlimit⟩ := pageLimit_eq limitStr
  have hcount : bigintParam (.finite l) = some (l : ℤ) := bigintParam_natCast (by omega)
  cases hn : bigintParam n <;> simp [Db.selectOlder, hr, hn, hlimit, hcount]

/-! ## What the guards accept -/

/-- The number of a `join_room` that is accepted is one of the frame. -/
theorem isRounded_of_accepted {text : JsString} {frame : Json} {payload : JoinRoomPayload}
    {n : JsNumber} (hparse : Json.parse text = some frame)
    (haccept : validateJoinRoomPayload (frame.member (JsString.lit "data")) = .ok payload)
    (hn : payload.lastSeenSeq = some n) : Json.IsRounded n := by
  obtain ⟨o, hobject, haccept⟩ := ok_of_bind_eq_ok haccept
  obtain ⟨room, -, haccept⟩ := ok_of_bind_eq_ok haccept
  have hdata : frame.member (JsString.lit "data") = some o := by
    rw [validateObject.eq_def] at hobject
    split at hobject
    · rename_i members hmembers
      cases hobject
      exact hmembers
    · cases hobject
  have hmember : o.member (JsString.lit "last_seen_seq") = some (.number n) := by
    split at haccept
    · cases haccept
      cases hn
    · cases haccept
      cases hn
    · rename_i m hm
      split at haccept
      · cases haccept
        cases hn
        exact hm
      · cases haccept
    · cases haccept
  exact ((Json.allNumbers_parse hparse).member hdata).member hmember n .number

/-- The digits that `parseInt` reads. -/
def leadingDigits (text : JsString) : JsString :=
  let text := text.dropWhile JsString.isTrimmed
  let unsigned := if text.head? = some 0x2D ∨ text.head? = some 0x2B then text.tail else text
  unsigned.takeWhile JsNumber.isDigit

/-- A cursor that is accepted is what the digits spell. -/
theorem parseInt_of_accepted {cursor : JsString}
    (h : invalidCursor (JsNumber.parseInt cursor) = false) :
    JsNumber.parseInt cursor = JsNumber.round (JsNumber.digitsValue (leadingDigits cursor)) := by
  have hdigits : JsNumber.parseInt cursor =
      if leadingDigits cursor = [] then .nan
      else JsNumber.round (if (cursor.dropWhile JsString.isTrimmed).head? = some 0x2D
        then -(JsNumber.digitsValue (leadingDigits cursor) : ℚ)
        else JsNumber.digitsValue (leadingDigits cursor)) := rfl
  rw [hdigits] at h ⊢
  split at h
  · cases h
  · rename_i hne
    rw [if_neg hne]
    split at h
    · -- A number that is not positive is below one.
      have hinvalid : ∀ q : ℚ, q ≤ 0 → invalidCursor (.finite q) = true := fun q hq ↦ by
        simp [invalidCursor, JsNumber.lt, hq.trans_lt one_pos]
      rcases Nat.eq_zero_or_pos (JsNumber.digitsValue (leadingDigits cursor)) with hzero | hpos
      · rw [hzero, Nat.cast_zero, neg_zero, JsNumber.round, if_pos rfl, hinvalid 0 le_rfl] at h
        cases h
      · rcases JsNumber.round_neg hpos with ⟨q, hq, hround⟩ | hround
        · rw [hround, hinvalid q hq] at h
          cases h
        · rw [hround] at h
          cases h
    · rename_i hminus
      rw [if_neg hminus]

/-- **Which cursors are parameters.** A `last_seen_seq` that is accepted makes the history query
succeed, and is an integer in the range of the type, if and only if it is an integer between the
bounds of the type. A cursor of `getMessages` that is accepted does so if and only if its digits
spell a number that is nearer to a double below `2⁶³` than to `2⁶³`. -/
theorem cursors_valid_iff (text cursor : JsString) :
    (∀ (frame : Json) (payload : JoinRoomPayload) (n : JsNumber),
      Json.parse text = some frame →
      validateJoinRoomPayload (frame.member (JsString.lit "data")) = .ok payload →
      payload.lastSeenSeq = some n →
      ((ValidParameter n ∧ ∀ (db : Db) (roomId : RoomId), (Uuid.parse roomId).isSome →
          (db.exec (.selectHistory roomId n)).isSome) ↔
        ∃ z : ℤ, n = .finite z ∧ -2 ^ 63 < z ∧ z < 2 ^ 63)) ∧
    ∀ seq : JsNumber, cursorSeq (some cursor) = some seq → invalidCursor seq = false →
      ((ValidParameter seq ∧ ∀ (db : Db) (roomId : RoomId) (limitStr : Option JsString),
          (Uuid.parse roomId).isSome →
          (db.selectOlder roomId (some seq) (pageLimit limitStr)).isSome) ↔
        JsNumber.digitsValue (leadingDigits cursor) < 2 ^ 63 - 512) := by
  constructor
  · intro frame payload n hparse haccept hn
    rw [← validParameter_iff (isRounded_of_accepted hparse haccept hn)]
    refine and_iff_left_of_imp fun hvalid db roomId hroom ↦ ?_
    rw [isSome_selectHistory db hroom, hvalid.parses]
  · intro seq hseq haccept
    obtain rfl : JsNumber.parseInt cursor = seq := by
      rw [cursorSeq] at hseq
      split at hseq
      · cases hseq
      · exact Option.some.inj hseq
    have hround := parseInt_of_accepted haccept
    rw [← JsNumber.exists_round_lt_iff, ← hround]
    refine (and_iff_left_of_imp fun hvalid db roomId limitStr hroom ↦ ?_).trans
      ((validParameter_iff ⟨_, hround⟩).trans ⟨?_, ?_⟩)
    · rw [isSome_selectOlder db limitStr hroom, hvalid.parses]
    · rintro ⟨z, hz, -, hhigh⟩
      exact ⟨z, by exact_mod_cast hhigh, hz⟩
    · rintro ⟨x, hx, hseq⟩
      obtain ⟨m, rfl⟩ := JsNumber.exists_natCast_of_round (hround.symm.trans hseq)
      have hm : m < 2 ^ 63 := by exact_mod_cast hx
      exact ⟨m, by rw [hseq, Int.cast_natCast], by omega, by exact_mod_cast hm⟩

/-- A text evaluated: it is a frame whose payload is accepted with the number `n`. -/
theorem exists_accepted {t : JsString} {n : JsNumber}
    (h : (Json.parse t).any (fun frame ↦
      (validateJoinRoomPayload (frame.member (JsString.lit "data"))).toOption.bind
        (·.lastSeenSeq) = some n) = true) :
    ∃ frame payload, Json.parse t = some frame ∧
      validateJoinRoomPayload (frame.member (JsString.lit "data")) = .ok payload ∧
      payload.lastSeenSeq = some n := by
  obtain ⟨frame, hframe, haccept⟩ := (Option.any_eq_true _ _).mp h
  obtain ⟨payload, hpayload, hn⟩ := Option.bind_eq_some_iff.mp (of_decide_eq_true haccept)
  refine ⟨frame, payload, hframe, ?_, hn⟩
  cases hvalid : validateJoinRoomPayload (frame.member (JsString.lit "data")) with
  | error err =>
    rw [hvalid] at hpayload
    cases hpayload
  | ok payload' =>
    rw [hvalid] at hpayload
    rw [Option.some.inj hpayload]

/-- Messages from `42` on, and the page of the messages before `42`. -/
theorem cursors_valid_iff_fortyTwo :
    (∃ frame payload, Json.parse (JsString.lit
        "\x7b\"data\": \x7b\"room_id\": \"r\", \"last_seen_seq\": 42\x7d\x7d") = some frame ∧
      validateJoinRoomPayload (frame.member (JsString.lit "data")) = .ok payload ∧
      payload.lastSeenSeq = some (.finite 42) ∧ ValidParameter (.finite 42)) ∧
    ∃ seq, cursorSeq (some (JsString.lit "42")) = some seq ∧ ValidParameter seq := by
  constructor
  · obtain ⟨frame, payload, hparse, haccept, hn⟩ := exists_accepted (n := .finite 42) (t :=
      JsString.lit "\x7b\"data\": \x7b\"room_id\": \"r\", \"last_seen_seq\": 42\x7d\x7d")
      (by decide +kernel)
    exact ⟨frame, payload, hparse, haccept, hn,
      (((cursors_valid_iff _ []).1 frame payload _ hparse haccept hn).mpr
        ⟨42, rfl, by decide, by decide⟩).1⟩
  · exact ⟨_, rfl, (((cursors_valid_iff [] (JsString.lit "42")).2 _ rfl (by decide +kernel)).mpr
      (by decide +kernel)).1⟩

/-- A fraction is accepted by `join_room`, and the largest `BIGINT` by `getMessages`; the queries
fail because of them. -/
theorem cursor_invalid :
    (∃ text frame payload n, Json.parse text = some frame ∧
      validateJoinRoomPayload (frame.member (JsString.lit "data")) = .ok payload ∧
      payload.lastSeenSeq = some n ∧ ¬ ValidParameter n ∧
      (Db.exec {} (.selectHistory Uuid.nil.text n)).isSome = false) ∧
    ∃ seq, cursorSeq (some (JsString.lit "9223372036854775807")) = some seq ∧
      invalidCursor seq = false ∧ ¬ ValidParameter seq ∧
      (Db.selectOlder {} Uuid.nil.text (some seq) (pageLimit none)).isSome = false := by
  have hroom : (Uuid.parse Uuid.nil.text).isSome = true := by decide
  have hinvalid : ∀ {n : JsNumber}, bigintParam n = none → ¬ ValidParameter n := by
    intro n hn hvalid
    have hparses := hvalid.parses
    rw [hn] at hparses
    cases hparses
  constructor
  · obtain ⟨frame, payload, hparse, haccept, hn⟩ := exists_accepted (n := .finite (1 / 2)) (t :=
      JsString.lit "\x7b\"data\": \x7b\"room_id\": \"r\", \"last_seen_seq\": 0.5\x7d\x7d")
      (by decide +kernel)
    have hparam : bigintParam (.finite (1 / 2)) = none := by decide +kernel
    exact ⟨_, frame, payload, _, hparse, haccept, hn, hinvalid hparam,
      (isSome_selectHistory {} hroom).trans (congrArg Option.isSome hparam)⟩
  · have hparam : bigintParam (JsNumber.parseInt (JsString.lit "9223372036854775807")) = none := by
      decide +kernel
    exact ⟨_, rfl, by decide +kernel, hinvalid hparam,
      (isSome_selectOlder {} none hroom).trans (congrArg Option.isSome hparam)⟩

end PostgresChat
