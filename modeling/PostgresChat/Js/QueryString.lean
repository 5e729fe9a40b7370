import PostgresChat.Js.Json
import PostgresChat.Js.Utf8

/-!
# Query strings

`encodeURIComponent` writes a string in ASCII characters that a URL may hold, and
`querystring.parse` takes the part of a URL behind the question mark apart and reads names and
values back. It leaves alone what it has found no escape in, reads with `decodeURIComponent` what
that accepts, and everything else byte by byte.

What is written is read back (`parseQuery_writeQuery`): the separators are escaped, so the
pieces are found again, and the escapes of a character take the reader from between two characters
to between two characters, whatever follows (`Unescapes`).
-/

namespace JsString

/-! ## Writing -/

/-- The characters that `encodeURIComponent` leaves as they are. -/
def isUnreserved (n : ℕ) : Bool :=
  (0x30 ≤ n && n ≤ 0x39) || (0x41 ≤ n && n ≤ 0x5A) || (0x61 ≤ n && n ≤ 0x7A) ||
    n ∈ [0x2D, 0x5F, 0x2E, 0x21, 0x7E, 0x2A, 0x27, 0x28, 0x29]

/-- A hexadecimal digit in upper case. -/
def hexUpper (n : ℕ) : UInt16 := if n < 10 then (0x30 + n).toUInt16 else (0x37 + n).toUInt16

/-- `%` and two digits. -/
def percentEscape (b : UInt8) : JsString :=
  [0x25, hexUpper (b.toNat / 0x10), hexUpper (b.toNat % 0x10)]

def encodeCodePoint (n : ℕ) : JsString :=
  if isUnreserved n then [n.toUInt16] else (utf8Bytes n).flatMap percentEscape

/-- `encodeURIComponent(s)`; it throws when a surrogate has no partner. -/
def encodeURIComponent (s : JsString) : Option JsString :=
  if toWellFormed s = s then some ((codePoints s).flatMap encodeCodePoint) else none

/-- A piece of a query: a name and its value. -/
def writePair (pair : JsString × JsString) : Option JsString := do
  let name ← encodeURIComponent pair.1
  let value ← encodeURIComponent pair.2
  return name ++ 0x3D :: value

/-- Names and values, as a client puts them behind the question mark. -/
def writeQuery (pairs : List (JsString × JsString)) : Option JsString :=
  (pairs.mapM writePair).map ([0x26] : JsString).intercalate

/-! ## Reading -/

/-- The byte of an escape, if the units are one. -/
def unhex? (u high low : UInt16) : Option ℕ :=
  if u = 0x25 then do
    let high ← Json.hexDigit high
    let low ← Json.hexDigit low
    return 0x10 * high + low
  else none

/-- A byte read by a decoder that stops at the first mistake. -/
def strictStep (s : Utf8.State) (b : ℕ) : Option (JsString × Utf8.State) :=
  if s.needed = 0 then
    if b ≤ 0x7F ∨ 0xC2 ≤ b ∧ b ≤ 0xF4 then some (Utf8.lead b) else none
  else if s.lower ≤ b ∧ b ≤ s.upper then some (Utf8.step s b)
  else none

/-- `decodeURIComponent`, in the middle of a character. -/
def decodeURIFrom (s : Utf8.State) : JsString → Option JsString
  | u :: high :: low :: rest =>
    match unhex? u high low with
    | some b => do
      let (units, s') ← strictStep s b
      let decoded ← decodeURIFrom s' rest
      return units ++ decoded
    | none => do
      guard (u ≠ 0x25 ∧ s.needed = 0)
      let decoded ← decodeURIFrom s (high :: low :: rest)
      return u :: decoded
  | rest => if 0x25 ∉ rest ∧ s.needed = 0 then some rest else none

/-- `decodeURIComponent(s)`; it throws when an escape is incomplete or the bytes are no UTF-8. -/
def decodeURIComponent (s : JsString) : Option JsString := decodeURIFrom {} s

/-- `querystring.unescapeBuffer(s)`. -/
def unescapeBuffer : JsString → List UInt8
  | u :: high :: low :: rest =>
    match unhex? u high low with
    | some b => b.toUInt8 :: unescapeBuffer rest
    | none => u.toUInt8 :: unescapeBuffer (high :: low :: rest)
  | rest => rest.map UInt16.toUInt8

/-- `querystring.unescape(s)`. -/
def unescape (s : JsString) : JsString :=
  (decodeURIComponent s).getD (Utf8.decode (unescapeBuffer s))

/-- What follows the first escape, if there is one. -/
def afterEscape : JsString → Option JsString
  | u :: high :: low :: rest =>
    if (unhex? u high low).isSome then some rest else afterEscape (high :: low :: rest)
  | _ => none

/-- An escape is found; a `+` between its units is passed over. -/
def hasEscape (s : JsString) : Bool := (afterEscape (s.filter (· ≠ 0x2B))).isSome

/-- A name or value: `+` stands for a space, and escapes are decoded when one has been found. -/
def readComponent (encoded : Bool) (s : JsString) : JsString :=
  let s := s.map fun u ↦ if u = 0x2B then 0x20 else u
  if encoded then unescape s else s

/-- Name and value of a piece. Without `=` the value is empty. After an escape in the name the
search goes on for the value. -/
def readPair (piece : JsString) : JsString × JsString :=
  let name := piece.takeWhile (· ≠ 0x3D)
  let value := piece.drop (name.length + 1)
  let rest := afterEscape name
  (readComponent rest.isSome name, readComponent (rest.any hasEscape || hasEscape value) value)

/-- `querystring.parse(qs)`: the names with their values, of a thousand pieces at most. A name that
comes up more than once has an array of values. -/
def parseQuery (qs : JsString) : List (JsString × JsString) :=
  (((qs.splitOn 0x26).take 1000).filter (· ≠ [])).map readPair

example : parseQuery (lit "a=1+2&&b&a=%C3%A9%&c=é%") =
    [(lit "a", lit "1 2"), (lit "b", []), (lit "a", lit "é%"), (lit "c", lit "é%")] := by decide

/-! ## One character -/

/-- What is written is read between two characters as the text, whatever follows. -/
def Unescapes (written text : JsString) : Prop :=
  ∀ rest, decodeURIFrom {} (written ++ rest) = (decodeURIFrom {} rest).map (text ++ ·)

theorem Unescapes.decodeURIComponent {written text : JsString} (h : Unescapes written text) :
    decodeURIComponent written = some text := by
  have hall := h []
  rw [List.append_nil] at hall
  rw [JsString.decodeURIComponent, hall]
  exact congrArg some (List.append_nil text)

theorem Unescapes.nil : Unescapes [] [] := fun rest ↦ by
  cases h : decodeURIFrom {} rest <;> simp [h]

theorem Unescapes.append {written written' text text' : JsString} (h : Unescapes written text)
    (h' : Unescapes written' text') : Unescapes (written ++ written') (text ++ text') := by
  intro rest
  rw [List.append_assoc, h, h', Option.map_map]
  exact congrArg (Option.map · _) (funext fun s ↦ (List.append_assoc text text' s).symm)

theorem hexDigit_hexUpper {d : ℕ} (hd : d < 0x10) : Json.hexDigit (hexUpper d) = some d := by
  revert d
  decide

theorem unhex?_percentEscape (b : UInt8) :
    unhex? 0x25 (hexUpper (b.toNat / 0x10)) (hexUpper (b.toNat % 0x10)) = some b.toNat := by
  have hb : b.toNat < 0x100 := b.toNat_lt
  rw [unhex?, if_pos rfl, hexDigit_hexUpper (by omega), hexDigit_hexUpper (by omega)]
  exact congrArg some (Nat.div_add_mod b.toNat 0x10)

theorem decodeURIFrom_percentEscape (s : Utf8.State) (b : UInt8) (rest : JsString) :
    decodeURIFrom s (percentEscape b ++ rest) = (strictStep s b.toNat).bind fun read ↦
      (decodeURIFrom read.2 rest).map (read.1 ++ ·) := by
  rw [percentEscape, List.cons_append, List.cons_append, List.singleton_append, decodeURIFrom,
    unhex?_percentEscape]
  dsimp only
  cases strictStep s b.toNat with
  | none => rfl
  | some read =>
    dsimp only [Option.bind_eq_bind, Option.bind_some]
    cases decodeURIFrom read.2 rest <;> rfl

/-- A unit that stands for itself. -/
theorem unescapes_singleton {u : UInt16} (hu : u ≠ 0x25) : Unescapes [u] [u] := by
  intro rest
  have hnone : ∀ high low, unhex? u high low = none := fun high low ↦ if_neg hu
  rcases rest with _ | ⟨v, _ | ⟨w, rest⟩⟩
  · simp [decodeURIFrom, hu.symm]
  · by_cases hv : 0x25 = v
    · simp [decodeURIFrom, hv]
    · simp [decodeURIFrom, hu.symm, hv]
  · rw [List.singleton_append, decodeURIFrom, hnone]
    cases decodeURIFrom {} (v :: w :: rest) <;> simp [hu]

/-- The bytes of a character that has begun. -/
theorem decodeURIFrom_of_completes {n : ℕ} {s : Utf8.State} {bytes : List UInt8}
    (h : Utf8.Completes n s bytes) (rest : JsString) :
    decodeURIFrom s (bytes.flatMap percentEscape ++ rest) =
      (decodeURIFrom {} rest).map (ofCodePoint n ++ ·) := by
  induction h with
  | last hlower hupper hb hn =>
    rw [List.flatMap_singleton, decodeURIFrom_percentEscape, Utf8.toNat_toUInt8 hb, strictStep,
      if_neg Nat.one_ne_zero, if_pos ⟨hlower, hupper⟩,
      Utf8.step_continue Nat.one_ne_zero hlower hupper, if_pos rfl, Option.bind_some, hn]
  | @inner k c lower upper b bytes hlower hupper hb h ih =>
    rw [List.flatMap_cons, List.append_assoc, decodeURIFrom_percentEscape, Utf8.toNat_toUInt8 hb,
      strictStep, if_neg (Nat.succ_ne_zero _), if_pos ⟨hlower, hupper⟩,
      Utf8.step_continue (Nat.succ_ne_zero _) hlower hupper, if_neg (show k + 2 ≠ 1 by omega),
      Option.bind_some]
    refine (congrArg _ ih).trans ?_
    cases decodeURIFrom {} rest <;> rfl

theorem unescapes_utf8Bytes {n : ℕ} (hn : IsScalar n) :
    Unescapes ((utf8Bytes n).flatMap percentEscape) (ofCodePoint n) := by
  intro rest
  by_cases hlt : n < 0x80
  · rw [utf8Bytes, if_pos hlt, List.flatMap_singleton, decodeURIFrom_percentEscape,
      Utf8.toNat_toUInt8 (by omega), strictStep, if_pos rfl, if_pos (Or.inl (by omega)), Utf8.lead,
      if_pos (by omega), Option.bind_some, ofCodePoint, if_pos (by omega)]
  · obtain ⟨b, bytes, s, hbytes, hle, hb, hlead, hcompletes⟩ :=
      Utf8.utf8Bytes_completes hn (by omega)
    rw [hbytes, List.flatMap_cons, List.append_assoc, decodeURIFrom_percentEscape,
      Utf8.toNat_toUInt8 (by omega), strictStep, if_pos rfl, if_pos (Or.inr ⟨hle, hb⟩), hlead,
      Option.bind_some, decodeURIFrom_of_completes hcompletes]
    cases decodeURIFrom {} rest <;> rfl

theorem toNat_toUInt16_of_isUnreserved {n : ℕ} (h : isUnreserved n = true) :
    n.toUInt16.toNat = n ∧ n < 0x80 := by
  have hlt : n < 0x80 := by
    simp only [isUnreserved, Bool.or_eq_true, Bool.and_eq_true, decide_eq_true_eq, List.mem_cons,
      List.not_mem_nil, or_false] at h
    omega
  exact ⟨by rw [Nat.toUInt16_eq, UInt16.toNat_ofNat', Nat.mod_eq_of_lt (by omega)], hlt⟩

theorem unescapes_encodeCodePoint {n : ℕ} (hn : IsScalar n) :
    Unescapes (encodeCodePoint n) (ofCodePoint n) := by
  rw [encodeCodePoint]
  split
  case isTrue h =>
    obtain ⟨htoNat, hlt⟩ := toNat_toUInt16_of_isUnreserved h
    rw [ofCodePoint, if_pos (by omega)]
    refine unescapes_singleton fun hu ↦ ?_
    rw [← htoNat, hu] at h
    exact absurd h (by decide)
  case isFalse => exact unescapes_utf8Bytes hn

/-- `decodeURIComponent` undoes `encodeURIComponent`. -/
theorem unescapes_encodeURIComponent {s written : JsString}
    (h : encodeURIComponent s = some written) : Unescapes written s := by
  rw [encodeURIComponent, Option.ite_none_right_eq_some] at h
  obtain ⟨hs, hwritten⟩ := h
  obtain rfl := Option.some.inj hwritten
  have hcodePoints : ∀ l : List ℕ, (∀ n ∈ l, IsScalar n) →
      Unescapes (l.flatMap encodeCodePoint) (l.flatMap ofCodePoint) := by
    intro l hl
    induction l with
    | nil => exact .nil
    | cons n l ih =>
      rw [List.flatMap_cons, List.flatMap_cons]
      exact (unescapes_encodeCodePoint (hl n List.mem_cons_self)).append
        (ih fun m hm ↦ hl m (List.mem_cons_of_mem _ hm))
  have := hcodePoints (codePoints s) fun n ↦ isScalar_of_mem_codePoints
  rwa [show (codePoints s).flatMap ofCodePoint = s from hs] at this

/-! ## Separators -/

theorem isUnreserved_hexUpper {d : ℕ} (hd : d < 0x10) :
    isUnreserved (hexUpper d).toNat = true := by
  revert d
  decide

theorem of_mem_percentEscape {b : UInt8} {u : UInt16} (hu : u ∈ percentEscape b) :
    isUnreserved u.toNat = true ∨ u = 0x25 := by
  have hb : b.toNat < 0x100 := b.toNat_lt
  simp only [percentEscape, List.mem_cons, List.not_mem_nil, or_false] at hu
  rcases hu with rfl | rfl | rfl
  · exact Or.inr rfl
  · exact Or.inl (isUnreserved_hexUpper (by omega))
  · exact Or.inl (isUnreserved_hexUpper (by omega))

/-- The units that `encodeURIComponent` writes. -/
theorem of_mem_encodeURIComponent {s written : JsString} (h : encodeURIComponent s = some written)
    {u : UInt16} (hu : u ∈ written) : isUnreserved u.toNat = true ∨ u = 0x25 := by
  rw [encodeURIComponent, Option.ite_none_right_eq_some] at h
  obtain rfl := Option.some.inj h.2
  obtain ⟨n, -, hu⟩ := List.mem_flatMap.mp hu
  rw [encodeCodePoint] at hu
  split at hu
  case isTrue hn =>
    obtain rfl := List.mem_singleton.mp hu
    exact Or.inl (by rwa [(toNat_toUInt16_of_isUnreserved hn).1])
  case isFalse =>
    obtain ⟨b, -, hu⟩ := List.mem_flatMap.mp hu
    exact of_mem_percentEscape hu

theorem notMem_encodeURIComponent {s written : JsString} (h : encodeURIComponent s = some written)
    {u : UInt16} (hu : isUnreserved u.toNat = false) (hne : u ≠ 0x25) : u ∉ written := by
  intro hmem
  rcases of_mem_encodeURIComponent h hmem with hunreserved | rfl
  · rw [hu] at hunreserved
    cases hunreserved
  · exact hne rfl

/-! ## Queries -/

/-- Without an escape nothing is decoded. -/
theorem eq_of_decodeURIFrom {s t : JsString} (hnone : afterEscape s = none)
    (h : decodeURIFrom {} s = some t) : t = s := by
  induction s generalizing t with
  | nil => exact (Option.some.inj h).symm
  | cons u s ih =>
    rcases s with _ | ⟨v, _ | ⟨w, s⟩⟩
    · rw [decodeURIFrom, Option.ite_none_right_eq_some] at h
      · exact (Option.some.inj h.2).symm
      · rintro u high low rest ⟨⟩
    · rw [decodeURIFrom, Option.ite_none_right_eq_some] at h
      · exact (Option.some.inj h.2).symm
      · rintro u high low rest ⟨⟩
    · rw [afterEscape] at hnone
      cases hunhex : unhex? u v w with
      | some b =>
        rw [hunhex] at hnone
        cases hnone
      | none =>
        rw [hunhex] at hnone
        rw [decodeURIFrom, hunhex] at h
        obtain ⟨-, -, h⟩ := Option.bind_eq_some_iff.mp h
        obtain ⟨decoded, hdecoded, h⟩ := Option.bind_eq_some_iff.mp h
        obtain rfl := Option.some.inj h
        rw [ih hnone hdecoded]

/-- A `+` is escaped, so that none is passed over. -/
theorem hasEscape_encodeURIComponent {s written : JsString}
    (h : encodeURIComponent s = some written) :
    hasEscape written = (afterEscape written).isSome := by
  rw [hasEscape, List.filter_eq_self.mpr fun u hu ↦ ?_]
  rw [decide_eq_true_eq]
  rintro rfl
  exact notMem_encodeURIComponent h (by decide) (by decide) hu

theorem readComponent_encodeURIComponent {s written : JsString} {encoded : Bool}
    (h : encodeURIComponent s = some written)
    (hencoded : hasEscape written = true → encoded = true) : readComponent encoded written = s := by
  have hplus : (written.map fun u ↦ if u = 0x2B then 0x20 else u) = written := by
    refine (List.map_congr_left fun u hu ↦ if_neg ?_).trans (List.map_id _)
    rintro rfl
    exact notMem_encodeURIComponent h (by decide) (by decide) hu
  have hdecode := (unescapes_encodeURIComponent h).decodeURIComponent
  rw [readComponent, hplus]
  cases encoded with
  | true =>
    rw [if_pos rfl, unescape, hdecode]
    rfl
  | false =>
    have hnone : afterEscape written = none := by
      rw [hasEscape_encodeURIComponent h] at hencoded
      exact Option.not_isSome_iff_eq_none.mp fun hsome ↦ Bool.false_ne_true (hencoded hsome)
    rw [if_neg Bool.false_ne_true]
    exact (eq_of_decodeURIFrom hnone hdecode).symm

/-- A character that is written as it is, an escape, or the sign between name and value. -/
def isPieceUnit (u : UInt16) : Bool := isUnreserved u.toNat || u = 0x25 || u = 0x3D

theorem readPair_of_writePair {pair : JsString × JsString} {piece : JsString}
    (h : writePair pair = some piece) :
    readPair piece = pair ∧ piece ≠ [] ∧ ∀ u ∈ piece, isPieceUnit u = true := by
  obtain ⟨name, hname, h⟩ := Option.bind_eq_some_iff.mp h
  obtain ⟨value, hvalue, h⟩ := Option.bind_eq_some_iff.mp h
  obtain rfl := Option.some.inj h
  have htake : (name ++ 0x3D :: value).takeWhile (· ≠ 0x3D) = name := by
    rw [List.takeWhile_append_of_pos, List.takeWhile_cons_of_neg (by decide), List.append_nil]
    intro u hu
    rw [decide_eq_true_eq]
    rintro rfl
    exact notMem_encodeURIComponent hname (by decide) (by decide) hu
  have hdrop : (name ++ 0x3D :: value).drop (name.length + 1) = value := by
    rw [List.append_cons]
    exact List.drop_left' (by rw [List.length_append, List.length_singleton])
  have hwritten : ∀ {s written : JsString}, encodeURIComponent s = some written →
      ∀ u ∈ written, isPieceUnit u = true := by
    intro s written hs u hu
    rcases of_mem_encodeURIComponent hs hu with hu | rfl
    · rw [isPieceUnit, hu, Bool.true_or, Bool.true_or]
    · rfl
  refine ⟨?_, List.append_ne_nil_of_right_ne_nil _ (List.cons_ne_nil _ _), ?_⟩
  · have hescape := (hasEscape_encodeURIComponent hname).symm
    rw [readPair, htake, hdrop, readComponent_encodeURIComponent hname hescape.trans,
      readComponent_encodeURIComponent hvalue fun hfound ↦ Bool.or_eq_true_iff.mpr (Or.inr hfound)]
  · rw [List.forall_mem_append, List.forall_mem_cons]
    exact ⟨hwritten hname, rfl, hwritten hvalue⟩

theorem of_mapM_writePair {pairs : List (JsString × JsString)} {pieces : List JsString}
    (h : pairs.mapM writePair = some pieces) : pieces.map readPair = pairs ∧
      ∀ piece ∈ pieces, piece ≠ [] ∧ ∀ u ∈ piece, isPieceUnit u = true := by
  induction pairs generalizing pieces with
  | nil =>
    obtain rfl := Option.some.inj h
    exact ⟨rfl, by rintro piece ⟨⟩⟩
  | cons pair pairs ih =>
    rw [List.mapM_cons] at h
    obtain ⟨piece, hpiece, h⟩ := Option.bind_eq_some_iff.mp h
    obtain ⟨rest, hrest, h⟩ := Option.bind_eq_some_iff.mp h
    obtain rfl := Option.some.inj h
    obtain ⟨hread, hunits⟩ := readPair_of_writePair hpiece
    rw [List.map_cons, hread, (ih hrest).1, List.forall_mem_cons]
    exact ⟨rfl, hunits, (ih hrest).2⟩

/-- **Queries.** The names and values that a client writes are read back. -/
theorem parseQuery_writeQuery {pairs : List (JsString × JsString)} {qs : JsString}
    (h : writeQuery pairs = some qs) (hlength : pairs.length ≤ 1000) : parseQuery qs = pairs := by
  obtain ⟨pieces, hpieces, rfl⟩ := Option.map_eq_some_iff.mp h
  obtain ⟨hread, hpiece⟩ := of_mapM_writePair hpieces
  by_cases hnil : pieces = []
  · rw [hnil] at hread ⊢
    rw [← hread]
    rfl
  · have hle : pieces.length ≤ 1000 := by rwa [← hread, List.length_map] at hlength
    have hsep : ∀ piece ∈ pieces, 0x26 ∉ piece := fun piece hmem hu ↦
      absurd ((hpiece piece hmem).2 _ hu) (by decide)
    have hfilter : pieces.filter (· ≠ []) = pieces :=
      List.filter_eq_self.mpr fun piece hmem ↦ decide_eq_true (hpiece piece hmem).1
    rw [parseQuery, List.splitOn_intercalate 0x26 hsep hnil, List.take_of_length_le hle, hfilter,
      hread]

theorem of_mem_intercalate {c u : UInt16} {pieces : List JsString}
    (hu : u ∈ ([c] : JsString).intercalate pieces) : u = c ∨ ∃ piece ∈ pieces, u ∈ piece := by
  induction pieces with
  | nil => cases hu
  | cons piece pieces ih =>
    cases pieces with
    | nil =>
      rw [List.intercalate_singleton] at hu
      exact Or.inr ⟨piece, List.mem_cons_self, hu⟩
    | cons next pieces =>
      rw [List.intercalate_cons_cons, List.mem_append, List.mem_append, List.mem_singleton] at hu
      rcases hu with (hu | hu) | hu
      · exact Or.inr ⟨piece, List.mem_cons_self, hu⟩
      · exact Or.inl hu
      · exact (ih hu).imp_right fun ⟨piece', hmem, hu⟩ ↦
          ⟨piece', List.mem_cons_of_mem _ hmem, hu⟩

/-- A query does not end at a question mark of its own. -/
theorem questionMark_notMem_writeQuery {pairs : List (JsString × JsString)} {qs : JsString}
    (h : writeQuery pairs = some qs) : 0x3F ∉ qs := by
  obtain ⟨pieces, hpieces, rfl⟩ := Option.map_eq_some_iff.mp h
  intro hu
  rcases of_mem_intercalate hu with hu | ⟨piece, hpiece, hu⟩
  · cases hu
  · exact absurd (((of_mapM_writePair hpieces).2 piece hpiece).2 _ hu) (by decide)

end JsString
