import PostgresChat.Js.Stringify
import PostgresChat.Js.Utf8

/-!
# JSON over the wire

`socket.send(JSON.stringify(value))` on one side and `JSON.parse(raw.toString())` on the other: the
text crosses the connection as UTF-8. UTF-8 has no encoding for a surrogate without its partner,
but no such surrogate is in a text that `JSON.stringify` has written, because it is escaped there
(`isWellFormed_stringify`). So the bytes are decoded to that text, and not to one with replacement
characters in it, and whatever can be read back from the text is read back from the bytes.

## Contents

* `JsString.IsWellFormed`: strings that are sequences of code points;
* `JsString.toWellFormed_eq_self_iff`: they are those that UTF-8 carries unchanged;
* `Json.ofBytes_toBytes`: a value is read back from the bytes it is written as.
-/

namespace JsString

/-! ## Well-formed strings -/

/-- The string is a sequence of code points: every surrogate has its partner. -/
def IsWellFormed (s : JsString) : Prop :=
  ∃ l : List ℕ, (∀ n ∈ l, IsScalar n) ∧ l.flatMap ofCodePoint = s

variable {s t : JsString} {u v : UInt16} {n : ℕ}

theorem IsWellFormed.nil : IsWellFormed [] := ⟨[], fun _ h ↦ absurd h List.not_mem_nil, rfl⟩

theorem IsWellFormed.append (hs : IsWellFormed s) (ht : IsWellFormed t) :
    IsWellFormed (s ++ t) := by
  obtain ⟨l, hl, rfl⟩ := hs
  obtain ⟨l', hl', rfl⟩ := ht
  refine ⟨l ++ l', fun n hn ↦ ?_, List.flatMap_append⟩
  exact (List.mem_append.mp hn).elim (hl n) (hl' n)

theorem isWellFormed_ofCodePoint (hn : IsScalar n) : IsWellFormed (ofCodePoint n) :=
  ⟨[n], List.forall_mem_singleton.mpr hn, List.flatMap_singleton ..⟩

theorem IsWellFormed.intercalate {sep : JsString} (hsep : IsWellFormed sep)
    {texts : List JsString} (h : ∀ text ∈ texts, IsWellFormed text) :
    IsWellFormed (sep.intercalate texts) := by
  induction texts with
  | nil => exact .nil
  | cons text texts ih =>
    have hfirst := h text List.mem_cons_self
    have hrest := ih fun text' htext' ↦ h text' (List.mem_cons_of_mem _ htext')
    rcases texts with _ | ⟨text', texts⟩
    · rwa [List.intercalate_singleton]
    · rw [List.intercalate_cons_cons]
      exact (hfirst.append hsep).append hrest

/-- A unit outside the range of the surrogates is a code point. -/
theorem isWellFormed_singleton (hhigh : isHighSurrogate u = false)
    (hlow : isLowSurrogate u = false) : IsWellFormed [u] := by
  have hu := u.toNat_lt
  have hscalar : IsScalar u.toNat := by
    rw [isHighSurrogate, Bool.and_eq_false_iff, decide_eq_false_iff_not,
      decide_eq_false_iff_not] at hhigh
    rw [isLowSurrogate, Bool.and_eq_false_iff, decide_eq_false_iff_not,
      decide_eq_false_iff_not] at hlow
    rw [IsScalar]
    omega
  have hself : ofCodePoint u.toNat = [u] := by
    rw [ofCodePoint, if_pos (by omega), Nat.toUInt16_eq, UInt16.ofNat_toNat]
  exact hself ▸ isWellFormed_ofCodePoint hscalar

theorem isWellFormed_of_isAscii (h : s.all isAscii = true) : IsWellFormed s := by
  induction s with
  | nil => exact .nil
  | cons u s ih =>
    rw [List.all_cons, Bool.and_eq_true] at h
    have hlow : isLowSurrogate u = false := by
      have hu := of_decide_eq_true h.1
      rw [isLowSurrogate, Bool.and_eq_false_iff, decide_eq_false_iff_not]
      exact .inl (by omega)
    exact (isWellFormed_singleton (not_isHighSurrogate_of_isAscii h.1) hlow).append (ih h.2)

/-- A surrogate pair is a code point. -/
theorem ofCodePoint_pair (h : (isHighSurrogate u && isLowSurrogate v) = true) :
    IsScalar (0x10000 + (u.toNat - 0xD800) * 0x400 + (v.toNat - 0xDC00)) ∧
      ofCodePoint (0x10000 + (u.toNat - 0xD800) * 0x400 + (v.toNat - 0xDC00)) = [u, v] := by
  rw [isHighSurrogate, isLowSurrogate] at h
  simp only [Bool.and_eq_true, decide_eq_true_eq] at h
  constructor
  · rw [IsScalar]
    omega
  · rw [ofCodePoint, if_neg (by omega),
      show 0xD800 + (0x10000 + (u.toNat - 0xD800) * 0x400 + (v.toNat - 0xDC00) - 0x10000) / 0x400 =
        u.toNat by omega,
      show 0xDC00 + (0x10000 + (u.toNat - 0xD800) * 0x400 + (v.toNat - 0xDC00) - 0x10000) % 0x400 =
        v.toNat by omega, Nat.toUInt16_eq, Nat.toUInt16_eq, UInt16.ofNat_toNat,
      UInt16.ofNat_toNat]

/-! ## They are carried unchanged -/

theorem codePoints_cons (hu : isHighSurrogate u = false) (s : JsString) :
    codePoints (u :: s) = loneCodePoint u :: codePoints s := by
  rcases s with _ | ⟨v, s⟩
  · rfl
  · rw [codePoints, hu, Bool.false_and, if_neg Bool.false_ne_true]

/-- **One code point** is found again, whatever follows. -/
theorem codePoints_ofCodePoint_append (hn : IsScalar n) (s : JsString) :
    codePoints (ofCodePoint n ++ s) = n :: codePoints s := by
  have hunit : ∀ m, m < 0x10000 → m.toUInt16.toNat = m := fun m hm ↦ by
    rw [Nat.toUInt16_eq, UInt16.toNat_ofNat', Nat.mod_eq_of_lt hm]
  rw [IsScalar] at hn
  rw [ofCodePoint]
  split
  · rename_i hsingle
    have hhigh : isHighSurrogate n.toUInt16 = false := by
      rw [isHighSurrogate, hunit n hsingle, Bool.and_eq_false_iff, decide_eq_false_iff_not,
        decide_eq_false_iff_not]
      omega
    have hlow : isLowSurrogate n.toUInt16 = false := by
      rw [isLowSurrogate, hunit n hsingle, Bool.and_eq_false_iff, decide_eq_false_iff_not,
        decide_eq_false_iff_not]
      omega
    rw [List.singleton_append, codePoints_cons hhigh, loneCodePoint, hhigh, hlow, Bool.or_self,
      if_neg Bool.false_ne_true, hunit n hsingle]
  · rename_i hpair
    have hfirst := hunit (0xD800 + (n - 0x10000) / 0x400) (by omega)
    have hsecond := hunit (0xDC00 + (n - 0x10000) % 0x400) (by omega)
    have hboth : (isHighSurrogate (0xD800 + (n - 0x10000) / 0x400).toUInt16 &&
        isLowSurrogate (0xDC00 + (n - 0x10000) % 0x400).toUInt16) = true := by
      rw [isHighSurrogate, isLowSurrogate, hfirst, hsecond]
      simp only [Bool.and_eq_true, decide_eq_true_eq]
      omega
    rw [List.cons_append, List.singleton_append, codePoints, if_pos hboth, hfirst, hsecond,
      show 0x10000 + (0xD800 + (n - 0x10000) / 0x400 - 0xD800) * 0x400 +
        (0xDC00 + (n - 0x10000) % 0x400 - 0xDC00) = n by omega]

theorem codePoints_flatMap_ofCodePoint {l : List ℕ} (hl : ∀ n ∈ l, IsScalar n) :
    codePoints (l.flatMap ofCodePoint) = l := by
  induction l with
  | nil => rfl
  | cons n l ih =>
    rw [List.flatMap_cons, codePoints_ofCodePoint_append (hl n List.mem_cons_self),
      ih fun m hm ↦ hl m (List.mem_cons_of_mem _ hm)]

theorem isWellFormed_toWellFormed (s : JsString) : IsWellFormed (toWellFormed s) :=
  ⟨codePoints s, fun _ ↦ isScalar_of_mem_codePoints, rfl⟩

/-- `String.prototype.isWellFormed`. -/
theorem toWellFormed_eq_self_iff : toWellFormed s = s ↔ IsWellFormed s := by
  constructor
  · intro h
    exact h ▸ isWellFormed_toWellFormed s
  · rintro ⟨l, hl, rfl⟩
    rw [toWellFormed, codePoints_flatMap_ofCodePoint hl]

theorem IsWellFormed.toWellFormed (h : IsWellFormed s) : toWellFormed s = s :=
  toWellFormed_eq_self_iff.mpr h

/-! ## String literals -/

theorem isAscii_hexLower {d : ℕ} (hd : d < 0x10) : isAscii (hexLower d) = true := by
  have hall : ∀ d : Fin 0x10, isAscii (hexLower d) = true := by decide
  exact hall ⟨d, hd⟩

theorem isWellFormed_unicodeEscape (u : UInt16) : IsWellFormed (unicodeEscape u) := by
  have hu := u.toNat_lt
  refine isWellFormed_of_isAscii ?_
  rw [unicodeEscape, List.all_eq_true]
  simp only [List.forall_mem_cons]
  exact ⟨rfl, rfl, isAscii_hexLower (by omega), isAscii_hexLower (by omega),
    isAscii_hexLower (by omega), isAscii_hexLower (by omega), fun _ h ↦ absurd h List.not_mem_nil⟩

theorem isWellFormed_escapeUnit (u : UInt16) : IsWellFormed (escapeUnit u) := by
  have hshort : ∀ w : UInt16, isAscii w = true → IsWellFormed [0x5C, w] := fun w hw ↦
    isWellFormed_of_isAscii (by rw [List.all_cons, List.all_cons, hw]; rfl)
  rw [escapeUnit]
  split_ifs with hself _ _ _ _ _ hescaped
  · rcases hself with rfl | rfl
    · exact hshort _ rfl
    · exact hshort _ rfl
  · exact hshort _ rfl
  · exact hshort _ rfl
  · exact hshort _ rfl
  · exact hshort _ rfl
  · exact hshort _ rfl
  · exact isWellFormed_unicodeEscape u
  · rw [Bool.not_eq_true, Bool.or_eq_false_iff, Bool.or_eq_false_iff] at hescaped
    exact isWellFormed_singleton hescaped.1.2 hescaped.2

/-- **A string literal has no lone surrogate**, whatever string it stands for. -/
theorem isWellFormed_escape (s : JsString) : IsWellFormed (escape s) := by
  induction s using escape.induct with
  | case1 => exact .nil
  | case2 u => exact isWellFormed_escapeUnit u
  | case3 u v s hpair ih =>
    obtain ⟨hscalar, hunits⟩ := ofCodePoint_pair hpair
    have happend := (isWellFormed_ofCodePoint hscalar).append ih
    rw [hunits] at happend
    rw [escape, if_pos hpair]
    exact happend
  | case4 u v s hpair ih =>
    rw [escape, if_neg hpair]
    exact (isWellFormed_escapeUnit u).append ih

theorem isWellFormed_quote (s : JsString) : IsWellFormed (quote s) :=
  ((isWellFormed_of_isAscii (s := [0x22]) rfl).append (isWellFormed_escape s)).append
    (isWellFormed_of_isAscii rfl)

end JsString

namespace Json

open JsString (IsWellFormed isWellFormed_of_isAscii isWellFormed_quote)

/-! ## Texts of values -/

theorem isAscii_of_isWordUnit {u : UInt16} (h : isWordUnit u = true) :
    JsString.isAscii u = true := by
  have hof : ∀ w : UInt16, w.toNat < 0x80 → u = w → u.toNat < 0x80 := by
    rintro w hw rfl
    exact hw
  rw [isWordUnit, isDigit] at h
  simp only [Bool.or_eq_true, Bool.and_eq_true, decide_eq_true_eq, beq_iff_eq] at h
  rw [JsString.isAscii, decide_eq_true_eq]
  rcases h with ((((h | h) | h) | h) | h) | h
  · omega
  · omega
  · exact hof _ (by decide) h
  · exact hof _ (by decide) h
  · exact hof _ (by decide) h
  · exact hof _ (by decide) h

theorem Readable.isWellFormed {n : JsNumber} (h : Readable n) :
    IsWellFormed (stringifyNumber n) :=
  isWellFormed_of_isAscii (List.all_eq_true.mpr fun u hu ↦
    isAscii_of_isWordUnit (List.all_eq_true.mp h.word u hu))

mutual

/-- **What `JSON.stringify` writes has no lone surrogate.** -/
theorem isWellFormed_stringify : ∀ v : Json, v.AllNumbers Readable → IsWellFormed (stringify v)
  | null, _ => isWellFormed_of_isAscii (by decide)
  | bool true, _ => isWellFormed_of_isAscii (by decide)
  | bool false, _ => isWellFormed_of_isAscii (by decide)
  | number n, h => by
    rw [stringify]
    exact (h n .number).isWellFormed
  | string s, _ => by
    rw [stringify]
    exact isWellFormed_quote s
  | array items, h => by
    rw [stringify]
    have hitems := isWellFormed_stringifyItems items (allNumbers_array.mp h)
    exact ((isWellFormed_of_isAscii rfl).append
      (IsWellFormed.intercalate (isWellFormed_of_isAscii rfl) hitems)).append
      (isWellFormed_of_isAscii rfl)
  | object members, h => by
    rw [stringify]
    have hmembers := isWellFormed_stringifyMembers members (allNumbers_object.mp h)
    exact ((isWellFormed_of_isAscii rfl).append
      (IsWellFormed.intercalate (isWellFormed_of_isAscii rfl) hmembers)).append
      (isWellFormed_of_isAscii rfl)

theorem isWellFormed_stringifyItems : ∀ items : List Json, (∀ v ∈ items, v.AllNumbers Readable) →
    ∀ text ∈ stringifyItems items, IsWellFormed text
  | [], _ => by
    rw [stringifyItems]
    exact fun _ h ↦ absurd h List.not_mem_nil
  | v :: items, h => by
    rw [stringifyItems, List.forall_mem_cons]
    rw [List.forall_mem_cons] at h
    exact ⟨isWellFormed_stringify v h.1, isWellFormed_stringifyItems items h.2⟩

theorem isWellFormed_stringifyMembers : ∀ members : List (JsString × Json),
    (∀ m ∈ members, m.2.AllNumbers Readable) →
    ∀ text ∈ stringifyMembers members, IsWellFormed text
  | [], _ => by
    rw [stringifyMembers]
    exact fun _ h ↦ absurd h List.not_mem_nil
  | (name, v) :: members, h => by
    rw [stringifyMembers, List.forall_mem_cons]
    rw [List.forall_mem_cons] at h
    exact ⟨((isWellFormed_quote name).append (isWellFormed_of_isAscii rfl)).append
      (isWellFormed_stringify v h.1), isWellFormed_stringifyMembers members h.2⟩

end

/-! ## Bytes -/

/-- The bytes that `socket.send(JSON.stringify(value))` puts on the wire. -/
def toBytes (v : Json) : List UInt8 := JsString.utf8 (stringify v)

/-- `JSON.parse(raw.toString())`. -/
def ofBytes (raw : List UInt8) : Option Json := parse (Utf8.decode raw)

/-- **A value is read back from the wire.** -/
theorem ofBytes_toBytes {v : Json} (h : v.AllNumbers Readable) : ofBytes (toBytes v) = some v := by
  rw [ofBytes, toBytes, Utf8.decode_utf8, (isWellFormed_stringify v h).toWellFormed,
    parse_stringify h]

end Json
