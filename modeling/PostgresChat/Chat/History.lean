import PostgresChat.Chat.Http
import PostgresChat.Database.Messages
import PostgresChat.Js.Integers

/-!
# Paging through the history over HTTP

`ChatController.getMessages` answers with the newest messages of a room below a cursor. A page that
is as long as its limit ends with the cursor for the next one; a client follows the cursors until a
page comes without one.

A cursor is the `seq` of a message, as text, and the text is read back as the number it spells. What
is committed between two requests is numbered above everything that the first one could see, so
below a cursor nothing changes: the pages cut the messages of the first request, newest first, into
pieces.
-/

namespace PostgresChat

open Execution

/-! ## The controller -/

/-- `Math.min(Math.max(x, 1), 100)`. -/
def clampLimit (x : JsNumber) : JsNumber := .mathMin (.mathMax x (.finite 1)) (.finite 100)

/-- `Math.min(Math.max(parseInt(limitStr ?? '50', 10) || 50, 1), 100)`. -/
def pageLimit (limitStr : Option JsString) : JsNumber :=
  clampLimit ((JsNumber.parseInt (limitStr.getD (JsString.lit "50"))).orElse (.finite 50))

/-- `cursor ? parseInt(cursor, 10) : null`. -/
def cursorSeq : Option JsString → Option JsNumber
  | none => none
  | some cursor => if cursor = [] then none else some (JsNumber.parseInt cursor)

/-- `Number.isNaN(cursorSeq) || cursorSeq < 1`. -/
def invalidCursor (seq : JsNumber) : Bool := seq = .nan || seq.lt (.finite 1)

/-- `SELECT ... FROM messages WHERE room_id = $1 AND seq < $2 ORDER BY seq DESC`; there is no
condition on `seq` when there is no cursor. -/
def Db.older (db : Db) (r : Uuid) (below : Option ℤ) : List MessageRow :=
  ((db.messagesOf r).filter fun m ↦ below.all fun c ↦ decide ((m.seq : ℤ) < c)).insertionSort
    fun m m' ↦ m'.seq ≤ m.seq

/-- The statement of `getMessages`, with `LIMIT`; `none` when it fails. -/
def Db.selectOlder (db : Db) (roomId : RoomId) (below : Option JsNumber) (limit : JsNumber) :
    Option (List MessageRow) := do
  let r ← Uuid.parse roomId
  let below ← below.elim (some none) fun seq ↦ (bigintParam seq).map some
  let count ← bigintParam limit
  guard (0 ≤ count)
  return (db.older r below).take count.toNat

/-- What `getMessages` returns; a `BIGINT` column is text. -/
structure Page where
  messages : List MessageRow
  nextCursor : Option JsString
  deriving DecidableEq

/-- The `seq` of the last row. -/
def lastSeq (messages : List MessageRow) : Option JsString :=
  messages.getLast?.map fun m ↦ JsNumber.decimal m.seq

/-- `getMessages`. The membership is checked on the tables `checked`, the messages are read from
`db`. -/
def getMessages (checked db : Db) (userId : UserId) (roomId : RoomId)
    (cursor limitStr : Option JsString) : Except HttpResponse Page :=
  match checked.exec (.selectMember roomId userId) with
  | none => .error .serverError
  | some (_, result, _) =>
    if result.rowCount = 0 then .error (.forbidden (JsString.lit "Not a member of this room"))
    else if (cursorSeq cursor).any invalidCursor then
      .error (.forbidden (JsString.lit "Invalid cursor"))
    else
      match db.selectOlder roomId (cursorSeq cursor) (pageLimit limitStr) with
      | none => .error .serverError
      | some messages =>
        .ok ⟨messages,
          if .finite messages.length = pageLimit limitStr ∧ 0 < messages.length then
            lastSeq messages
          else none⟩

/-! ## The client -/

/-- The answer to request number `k` of a client that starts without a cursor and goes on with the
cursor of each page, if it has one; `none` when the request is not made. Request `k` finds the
tables `dbs (2 * k)` when the membership is checked, and `dbs (2 * k + 1)` when the messages are
read. -/
def response (dbs : ℕ → Db) (userId : UserId) (roomId : RoomId) (limits : ℕ → Option JsString) :
    ℕ → Option (Except HttpResponse Page)
  | 0 => some (getMessages (dbs 0) (dbs 1) userId roomId none (limits 0))
  | k + 1 =>
    match response dbs userId roomId limits k with
    | some (.ok ⟨_, some cursor⟩) =>
      some (getMessages (dbs (2 * (k + 1))) (dbs (2 * (k + 1) + 1)) userId roomId (some cursor)
        (limits (k + 1)))
    | _ => none

/-! ## Limits and cursors -/

theorem parseDecimal_decimal (n : ℕ) : parseDecimal (JsNumber.decimal n) = some n := by
  have hall : (JsNumber.decimal n).all (fun u ↦ 0x30 ≤ u.toNat && u.toNat ≤ 0x39) = true :=
    List.all_eq_true.mpr fun u hu ↦ JsNumber.isDigit_of_mem_decimal hu
  rw [parseDecimal, if_pos ⟨JsNumber.decimal_ne_nil n, hall⟩]
  exact congrArg some (JsNumber.digitsValue_decimal n)

theorem parseBigint_decimal {n : ℕ} (hn : n < 2 ^ 63) :
    parseBigint (JsNumber.decimal n) = some (n : ℤ) := by
  have hhead : (JsNumber.decimal n).head? ≠ some 0x2D := by
    intro hhead
    have hdigit := JsNumber.isDigit_of_mem_decimal (List.mem_of_head? hhead)
    cases hdigit
  rw [parseBigint, if_neg hhead, parseDecimal_decimal]
  refine Option.filter_eq_some_iff.mpr ⟨rfl, ?_⟩
  rw [decide_eq_true_iff]
  omega

/-- An integer below `2⁵³` is bound to itself. -/
theorem bigintParam_natCast {n : ℕ} (hn : n < 2 ^ 53) : bigintParam (.finite n) = some (n : ℤ) := by
  rw [bigintParam, JsNumber.toString_natCast hn, parseBigint_decimal (hn.trans (by norm_num))]

theorem clampLimit_of_lt {q : ℚ} (hq : q < 1) : clampLimit (.finite q) = .finite 1 := by
  simp [clampLimit, JsNumber.mathMax, JsNumber.mathMin, JsNumber.lt, hq]

theorem clampLimit_of_gt {q : ℚ} (hq : 100 < q) : clampLimit (.finite q) = .finite 100 := by
  have hone : ¬ q < 1 := not_lt.mpr (by linarith)
  simp [clampLimit, JsNumber.mathMax, JsNumber.mathMin, JsNumber.lt, hq, hone]

theorem clampLimit_of_le {q : ℚ} (hone : 1 ≤ q) (hq : q ≤ 100) :
    clampLimit (.finite q) = .finite q := by
  simp [clampLimit, JsNumber.mathMax, JsNumber.mathMin, JsNumber.lt, not_lt.mpr hone,
    not_lt.mpr hq]

theorem orElse_of_ne {q : ℚ} (hq : q ≠ 0) (x : JsNumber) :
    (JsNumber.finite q).orElse x = .finite q :=
  if_neg fun h ↦ h.elim nofun fun h ↦ hq (JsNumber.finite.inj h)

/-- **Every text is a limit between 1 and 100.** -/
theorem pageLimit_eq (limitStr : Option JsString) :
    ∃ l : ℕ, 1 ≤ l ∧ l ≤ 100 ∧ pageLimit limitStr = .finite l := by
  have hone : ∀ {x}, clampLimit x = .finite 1 →
      ∃ l : ℕ, 1 ≤ l ∧ l ≤ 100 ∧ clampLimit x = .finite l :=
    fun h ↦ ⟨1, le_rfl, by decide, by rw [h, Nat.cast_one]⟩
  have hfifty : ∃ l : ℕ, 1 ≤ l ∧ l ≤ 100 ∧ clampLimit (.finite 50) = .finite l :=
    ⟨50, by decide, by decide, clampLimit_of_le (by norm_num) (by norm_num)⟩
  have hhundred : ∀ {x}, clampLimit x = .finite 100 →
      ∃ l : ℕ, 1 ≤ l ∧ l ≤ 100 ∧ clampLimit x = .finite l :=
    fun h ↦ ⟨100, by decide, le_rfl, by rw [h, Nat.cast_ofNat]⟩
  rw [pageLimit]
  rcases JsNumber.parseInt_cases (limitStr.getD (JsString.lit "50")) with
    hnan | ⟨n, hround | ⟨hn, hround⟩⟩
  · rw [hnan]
    exact hfifty
  · rw [hround]
    by_cases hlarge : 2 ^ 53 ≤ n
    · rcases JsNumber.round_of_le hlarge with ⟨q, hq, hround⟩ | hround
      · rw [hround, orElse_of_ne (by linarith)]
        exact hhundred (clampLimit_of_gt (by linarith))
      · rw [hround]
        exact hhundred rfl
    · rw [JsNumber.round_natCast (not_le.mp hlarge)]
      rcases Nat.eq_zero_or_pos n with rfl | hpos
      · exact hfifty
      · rw [orElse_of_ne (by exact_mod_cast hpos.ne')]
        by_cases hle : n ≤ 100
        · exact ⟨n, hpos, hle, clampLimit_of_le (by exact_mod_cast hpos) (by exact_mod_cast hle)⟩
        · exact hhundred (clampLimit_of_gt (by exact_mod_cast not_le.mp hle))
  · rw [hround]
    rcases JsNumber.round_neg hn with ⟨q, hq, hround⟩ | hround
    · rw [hround]
      by_cases hzero : q = 0
      · rw [hzero]
        exact hfifty
      · rw [orElse_of_ne hzero]
        exact hone (clampLimit_of_lt (by linarith))
    · rw [hround]
      exact hone rfl

/-! ## What the statement selects -/

theorem messages_of_run {db db' : Db} {es : List DbEvent} (hrun : run Db.step db es = some db') :
    db.messages <+: db'.messages := by
  refine run_invariant (fun d ↦ db.messages <+: d.messages) (fun {d e d'} h hstep ↦ ?_)
    (List.prefix_refl _) hrun
  obtain ⟨⟨d'', notes⟩, happly, rfl⟩ := Option.map_eq_some_iff.mp hstep
  exact h.trans ⟨_, (Db.messages_of_apply happly).symm⟩

theorem messagesOf_pairwise {db : Db} (h : db.SeqInv) (r : Uuid) :
    (db.messagesOf r).Pairwise fun m m' ↦ m.seq < m'.seq := by
  have hseqs : (db.seqs r).Pairwise (· < ·) := by
    rw [h.range r]
    exact List.pairwise_lt_range' 1
  exact List.pairwise_map.mp hseqs

/-- Messages in the order of their numbers come out in reverse. -/
theorem insertionSort_eq_reverse {l : List MessageRow} (h : l.Pairwise fun m m' ↦ m.seq < m'.seq) :
    (l.insertionSort fun m m' ↦ m'.seq ≤ m.seq) = l.reverse := by
  induction l with
  | nil => rfl
  | cons m l ih =>
    obtain ⟨hm, hl⟩ := List.pairwise_cons.mp h
    have hnot : ∀ m' ∈ l.reverse, ¬ m'.seq ≤ m.seq :=
      fun m' hm' ↦ not_le.mpr (hm m' (List.mem_reverse.mp hm'))
    rw [List.insertionSort_cons, ih hl, List.orderedInsert_eq_take_drop, List.reverse_cons,
      List.takeWhile_eq_self_iff.mpr fun m' hm' ↦ decide_eq_true (hnot m' hm'),
      List.dropWhile_eq_nil_iff.mpr fun m' hm' ↦ decide_eq_true (hnot m' hm')]

theorem older_none {db : Db} (h : db.SeqInv) (r : Uuid) :
    db.older r none = (db.messagesOf r).reverse := by
  rw [Db.older, List.filter_eq_self.mpr (by simp),
    insertionSort_eq_reverse (messagesOf_pairwise h r)]

/-- **Below a cursor nothing changes.** The messages of the first request fall into those received
already and the rest; later the statement selects the rest below the last one received. -/
theorem older_some {db db' : Db} (h : db'.SeqInv) (hgrows : db.messages <+: db'.messages) {r : Uuid}
    {got rest : List MessageRow} {m : MessageRow}
    (hsplit : (db.messagesOf r).reverse = got ++ m :: rest) : db'.older r (some m.seq) = rest := by
  obtain ⟨rows, hrows⟩ := hgrows
  have hmessages : db'.messagesOf r =
      rest.reverse ++ (m :: (got.reverse ++ rows.filter fun m ↦ m.roomId = r)) := by
    have hbefore : db.messagesOf r = rest.reverse ++ (m :: got.reverse) := by
      rw [← List.reverse_reverse (db.messagesOf r), hsplit, List.reverse_append, List.reverse_cons,
        List.append_assoc, List.singleton_append]
    rw [Db.messagesOf, ← hrows, List.filter_append, ← Db.messagesOf, hbefore, List.append_assoc,
      List.cons_append]
  have hpairwise := messagesOf_pairwise h r
  rw [hmessages, List.pairwise_append, List.pairwise_cons] at hpairwise
  obtain ⟨hrest, ⟨hm, -⟩, hbelow⟩ := hpairwise
  have hselected : (db'.messagesOf r).filter
      (fun m' ↦ (some (m.seq : ℤ)).all fun c ↦ decide ((m'.seq : ℤ) < c)) = rest.reverse := by
    rw [hmessages, List.filter_append, List.filter_eq_self.mpr, List.filter_eq_nil_iff.mpr,
      List.append_nil]
    · intro m' hm'
      rcases List.mem_cons.mp hm' with rfl | hm'
      · simp
      · have := hm m' hm'
        simp only [Option.all_some, decide_eq_true_eq]
        omega
    · intro m' hm'
      have := hbelow m' hm' m List.mem_cons_self
      simp only [Option.all_some, decide_eq_true_eq]
      omega
  rw [Db.older, hselected, insertionSort_eq_reverse hrest, List.reverse_reverse]

/-! ## One request -/

/-- The page of at most `l` messages. -/
def pageOf (l : ℕ) (rows : List MessageRow) : Page :=
  ⟨rows.take l, if l ≤ rows.length then lastSeq (rows.take l) else none⟩

/-- A member is answered. -/
theorem getMessages_eq (checked db : Db) {userId : UserId} {roomId : RoomId} {r : Uuid} {l : ℕ}
    {limitStr : Option JsString} (hroom : Uuid.parse roomId = some r)
    (hmember : checked.isMember r userId = true) (hlimit : pageLimit limitStr = .finite l)
    (hpos : 1 ≤ l) (hle : l ≤ 100) (cursor : Option ℕ)
    (hcursor : ∀ c ∈ cursor, 1 ≤ c ∧ c < 2 ^ 53) :
    getMessages checked db userId roomId (cursor.map JsNumber.decimal) limitStr =
      .ok (pageOf l (db.older r (cursor.map fun c : ℕ ↦ (c : ℤ)))) := by
  have hseq : cursorSeq (cursor.map JsNumber.decimal) =
      cursor.map fun c : ℕ ↦ JsNumber.finite c := by
    cases cursor with
    | none => rfl
    | some c =>
      rw [Option.map_some, cursorSeq, if_neg (JsNumber.decimal_ne_nil c),
        JsNumber.parseInt_decimal (hcursor c rfl).2, Option.map_some]
  have hvalid : (cursor.map fun c : ℕ ↦ JsNumber.finite c).any invalidCursor = false := by
    cases cursor with
    | none => rfl
    | some c =>
      have hone : ¬ (c : ℚ) < 1 := not_lt.mpr (by exact_mod_cast (hcursor c rfl).1)
      simp [invalidCursor, JsNumber.lt, hone]
  have hselect : db.selectOlder roomId (cursor.map fun c : ℕ ↦ JsNumber.finite c) (.finite l) =
      some ((db.older r (cursor.map fun c : ℕ ↦ (c : ℤ))).take l) := by
    have hbelow : (cursor.map fun c : ℕ ↦ JsNumber.finite c).elim (some none)
        (fun seq ↦ (bigintParam seq).map some) = some (cursor.map fun c : ℕ ↦ (c : ℤ)) := by
      cases cursor with
      | none => rfl
      | some c => rw [Option.map_some, Option.elim_some, bigintParam_natCast (hcursor c rfl).2]; rfl
    have hnonneg : (0 : ℤ) ≤ l := Int.natCast_nonneg l
    simp [Db.selectOlder, hroom, hbelow, bigintParam_natCast (show l < 2 ^ 53 by omega), hnonneg]
  have hcheck : checked.exec (.selectMember roomId userId) = some (checked, .rows 1, []) := by
    simp [Db.exec, hroom, hmember]
  rw [getMessages, hcheck, hseq, hlimit, hselect]
  simp only [QueryResult.rowCount, one_ne_zero, if_false, hvalid, Bool.false_eq_true]
  rw [pageOf]
  congr 2
  refine if_congr ?_ rfl rfl
  rw [List.length_take, JsNumber.finite.injEq, Nat.cast_inj]
  omega

/-! ## All requests -/

section

variable {dbs : ℕ → Db} {userId : UserId} {roomId : RoomId} {r : Uuid}
  {limits : ℕ → Option JsString}

theorem seqInv_of_runs (hreach : ∃ es, run Db.step {} es = some (dbs 0))
    (hruns : ∀ i, ∃ es, run Db.step (dbs i) es = some (dbs (i + 1))) (i : ℕ) : (dbs i).SeqInv := by
  have hreached : ∃ es, run Db.step {} es = some (dbs i) := by
    induction i with
    | zero => exact hreach
    | succ i ih =>
      obtain ⟨es, hes⟩ := ih
      obtain ⟨es', hes'⟩ := hruns i
      exact ⟨es ++ es', run_append_eq_some.mpr ⟨_, hes, hes'⟩⟩
  obtain ⟨es, hes⟩ := hreached
  exact Db.seqInv_of_run hes

theorem messages_of_runs (hruns : ∀ i, ∃ es, run Db.step (dbs i) es = some (dbs (i + 1))) {i j : ℕ}
    (hij : i ≤ j) : (dbs i).messages <+: (dbs j).messages := by
  induction j, hij using Nat.le_induction with
  | base => exact List.prefix_refl _
  | succ j _ ih =>
    obtain ⟨es, hes⟩ := hruns j
    exact ih.trans (messages_of_run hes)

/-- **A request.** The client has received `got` and is answered with a page of the rest. -/
theorem response_eq (hinv : ∀ i, (dbs i).SeqInv)
    (hgrows : ∀ i, 1 ≤ i → (dbs 1).messages <+: (dbs i).messages)
    (hroom : Uuid.parse roomId = some r) (hmember : ∀ i, (dbs i).isMember r userId = true)
    (hseq : ∀ m ∈ (dbs 1).messagesOf r, m.seq < 2 ^ 53) {k l : ℕ} {got rest : List MessageRow}
    (hlimit : pageLimit (limits k) = .finite l) (hpos : 1 ≤ l) (hle : l ≤ 100)
    (hsplit : ((dbs 1).messagesOf r).reverse = got ++ rest) (hfirst : got = [] → k = 0) :
    getMessages (dbs (2 * k)) (dbs (2 * k + 1)) userId roomId (lastSeq got) (limits k) =
      .ok (pageOf l rest) := by
  rcases List.eq_nil_or_concat got with rfl | ⟨got', m, rfl⟩
  · obtain rfl := hfirst rfl
    have hanswer := getMessages_eq (dbs 0) (dbs 1) hroom (hmember 0) hlimit hpos hle none nofun
    rwa [Option.map_none, Option.map_none, older_none (hinv 1), hsplit] at hanswer
  · rw [List.concat_eq_append, List.append_assoc, List.singleton_append] at hsplit
    have hmem : m ∈ (dbs 1).messagesOf r := by
      rw [← List.mem_reverse, hsplit]
      exact List.mem_append_right _ List.mem_cons_self
    have hone : 1 ≤ m.seq := by
      have hmem : m.seq ∈ (dbs 1).seqs r := List.mem_map_of_mem hmem
      rw [(hinv 1).range r] at hmem
      exact (List.mem_range'_1.mp hmem).1
    have hanswer := getMessages_eq (dbs (2 * k)) (dbs (2 * k + 1)) hroom (hmember (2 * k)) hlimit
      hpos hle (some m.seq) (by
        rintro c ⟨⟩
        exact ⟨hone, hseq m hmem⟩)
    rw [Option.map_some, Option.map_some, older_some (hinv _) (hgrows _ (by omega)) hsplit]
      at hanswer
    rwa [lastSeq, List.concat_eq_append, List.getLast?_concat, Option.map_some]

/-- The client has received `got` and goes on: what it still gets are the pages of the rest. -/
theorem pages_of_response (hinv : ∀ i, (dbs i).SeqInv)
    (hgrows : ∀ i, 1 ≤ i → (dbs 1).messages <+: (dbs i).messages)
    (hroom : Uuid.parse roomId = some r) (hmember : ∀ i, (dbs i).isMember r userId = true)
    (hseq : ∀ m ∈ (dbs 1).messagesOf r, m.seq < 2 ^ 53) (k : ℕ) (got rest : List MessageRow)
    (hsplit : ((dbs 1).messagesOf r).reverse = got ++ rest) (hfirst : got = [] → k = 0)
    (hresponse : response dbs userId roomId limits k = some (getMessages (dbs (2 * k))
      (dbs (2 * k + 1)) userId roomId (lastSeq got) (limits k))) :
    ∃ pages : List Page, (∀ i page, pages[i]? = some page →
        response dbs userId roomId limits (k + i) = some (.ok page)) ∧
      response dbs userId roomId limits (k + pages.length) = none ∧
      pages.flatMap Page.messages = rest := by
  -- Every page but the last one shortens the rest.
  induction hlength : rest.length using Nat.strong_induction_on generalizing k got rest with
  | _ N ih =>
    obtain ⟨l, hpos, hle, hlimit⟩ := pageLimit_eq (limits k)
    rw [response_eq hinv hgrows hroom hmember hseq hlimit hpos hle hsplit hfirst] at hresponse
    by_cases hfull : l ≤ rest.length
    · have htake : rest.take l ≠ [] := by
        rw [Ne, List.take_eq_nil_iff]
        rintro (rfl | rfl)
        · omega
        · rw [List.length_nil] at hfull
          omega
      obtain ⟨m, hm⟩ := Option.ne_none_iff_exists'.mp (mt List.getLast?_eq_none_iff.mp htake)
      have hlast : lastSeq (rest.take l) = some (JsNumber.decimal m.seq) := by
        rw [lastSeq, hm, Option.map_some]
      have hgot : lastSeq (got ++ rest.take l) = some (JsNumber.decimal m.seq) := by
        rw [lastSeq, List.getLast?_append, hm]
        rfl
      have hnext : response dbs userId roomId limits (k + 1) = some (getMessages (dbs (2 * (k + 1)))
          (dbs (2 * (k + 1) + 1)) userId roomId (lastSeq (got ++ rest.take l))
            (limits (k + 1))) := by
        rw [response, hresponse, pageOf, if_pos hfull, hlast, hgot]
      obtain ⟨pages, hpages, hend, hmessages⟩ := ih (rest.drop l).length
        (by rw [List.length_drop]; omega) (k + 1) (got ++ rest.take l) (rest.drop l)
        (by rw [List.append_assoc, List.take_append_drop, hsplit])
        (fun h ↦ absurd (List.append_eq_nil_iff.mp h).2 htake) hnext rfl
      refine ⟨pageOf l rest :: pages, fun i page hi ↦ ?_, ?_, ?_⟩
      · cases i with
        | zero => rw [Nat.add_zero, hresponse, Option.some.inj hi]
        | succ i =>
          rw [← hpages i page hi]
          congr 1
          omega
      · rw [← hend, List.length_cons]
        congr 1
        omega
      · rw [List.flatMap_cons, hmessages, pageOf, List.take_append_drop]
    · have hpage : pageOf l rest = ⟨rest, none⟩ := by
        rw [pageOf, if_neg hfull, List.take_of_length_le (by omega)]
      refine ⟨[⟨rest, none⟩], fun i page hi ↦ ?_, ?_, List.append_nil _⟩
      · obtain ⟨rfl, rfl⟩ : i = 0 ∧ page = ⟨rest, none⟩ := by
          cases i with
          | zero => exact ⟨rfl, (Option.some.inj hi).symm⟩
          | succ i => cases hi
        rw [Nat.add_zero, hresponse, hpage]
      · rw [List.length_singleton, response, hresponse, hpage]

/-- **Paging is exact.** A member that starts without a cursor and follows the cursors gets a page
for every request, stops after the last page, and has then received the messages that the first
request could see, each once and the newest first. -/
theorem paging_exact (hreach : ∃ es, run Db.step {} es = some (dbs 0))
    (hruns : ∀ i, ∃ es, run Db.step (dbs i) es = some (dbs (i + 1)))
    (hroom : Uuid.parse roomId = some r) (hmember : ∀ i, (dbs i).isMember r userId = true)
    (hseq : ∀ m ∈ (dbs 1).messagesOf r, m.seq < 2 ^ 53) (limits : ℕ → Option JsString) :
    ∃ pages : List Page, (∀ k page, pages[k]? = some page →
        response dbs userId roomId limits k = some (.ok page)) ∧
      response dbs userId roomId limits pages.length = none ∧
      (pages.flatMap Page.messages).Perm ((dbs 1).messagesOf r) ∧
      (pages.flatMap Page.messages).Pairwise fun m m' ↦ m'.seq < m.seq := by
  have hinv := seqInv_of_runs hreach hruns
  obtain ⟨pages, hpages, hend, hmessages⟩ := pages_of_response hinv
    (fun i hi ↦ messages_of_runs hruns hi) hroom hmember hseq 0 []
    ((dbs 1).messagesOf r).reverse rfl (fun _ ↦ rfl) rfl
  simp only [Nat.zero_add] at hpages hend
  refine ⟨pages, hpages, hend, ?_, ?_⟩
  · rw [hmessages]
    exact List.reverse_perm _
  · rw [hmessages, List.pairwise_reverse]
    exact messagesOf_pairwise (hinv 1) r

end

/-- The user of the only member posts message number `t`. -/
def postEvents (t : ℕ) : List DbEvent :=
  [.beginInsert .nil [0x61] [0x62], .assignSequence t, .setUsername t, .store t, .commit t]

/-- A room with one member and three messages. -/
def threeMessages : List DbEvent :=
  [.createUser [0x61] [0x61], .createRoom .nil, .query (.insertMember Uuid.nil.text [0x61])] ++
    postEvents 0 ++ postEvents 1 ++ postEvents 2

/-- The first request asks for three messages, those after it for no number of them; a fourth
message is posted after the first one. -/
theorem paging_exact_growing :
    ∃ dbs : ℕ → Db, ((dbs 1).messagesOf .nil).map MessageRow.seq = [1, 2, 3] ∧
      ((dbs 2).messagesOf .nil).map MessageRow.seq = [1, 2, 3, 4] ∧
      ∃ pages : List Page, (∀ k page, pages[k]? = some page →
          response dbs [0x61] Uuid.nil.text
            (fun k ↦ some (JsString.lit (if k = 0 then " 3 " else "x"))) k = some (.ok page)) ∧
        response dbs [0x61] Uuid.nil.text
          (fun k ↦ some (JsString.lit (if k = 0 then " 3 " else "x"))) pages.length = none ∧
        (pages.flatMap Page.messages).Perm ((dbs 1).messagesOf .nil) ∧
        (pages.flatMap Page.messages).Pairwise fun m m' ↦ m'.seq < m.seq := by
  obtain ⟨db, hrun, hseqs, hmember⟩ : ∃ db, run Db.step {} threeMessages = some db ∧
      (db.messagesOf .nil).map MessageRow.seq = [1, 2, 3] ∧ db.isMember .nil [0x61] = true :=
    exists_run_of_any (fun db : Db ↦ (db.messagesOf .nil).map MessageRow.seq = [1, 2, 3] ∧
      db.isMember .nil [0x61] = true) (by decide) fun _ _ h ↦ h
  obtain ⟨db', hrun', hseqs', hmember'⟩ : ∃ db', run Db.step {} (threeMessages ++ postEvents 3) =
      some db' ∧ (db'.messagesOf .nil).map MessageRow.seq = [1, 2, 3, 4] ∧
        db'.isMember .nil [0x61] = true :=
    exists_run_of_any (fun db : Db ↦ (db.messagesOf .nil).map MessageRow.seq = [1, 2, 3, 4] ∧
      db.isMember .nil [0x61] = true) (by decide) fun _ _ h ↦ h
  obtain ⟨d, hd, hpost⟩ := run_append_eq_some.mp hrun'
  obtain rfl := Option.some.inj (hd.symm.trans hrun)
  refine ⟨fun i ↦ if i ≤ 1 then d else db', hseqs, hseqs',
    paging_exact ⟨_, hrun⟩ (fun i ↦ ?_) (by decide) (fun i ↦ ?_) (fun m hm ↦ ?_) _⟩
  · rcases Nat.lt_trichotomy i 1 with hi | rfl | hi
    · exact ⟨[], by simp [Nat.lt_one_iff.mp hi]⟩
    · exact ⟨postEvents 3, hpost⟩
    · exact ⟨[], by simp [show ¬ i ≤ 1 by omega, show ¬ i ≤ 0 by omega]⟩
  · split
    · exact hmember
    · exact hmember'
  · have hseq : m.seq ∈ [1, 2, 3] := hseqs ▸ List.mem_map_of_mem hm
    simp only [List.mem_cons, List.not_mem_nil, or_false] at hseq
    omega

end PostgresChat
