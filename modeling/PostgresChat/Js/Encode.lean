import PostgresChat.Js.Text

/-!
# Writing strings

`Buffer.from(text)`, with which strings reach libraries and the database as UTF-8, and the string
literals of `JSON.stringify`. A surrogate without its partner has no encoding: the first writes
U+FFFD for it, the second an escape.
-/

namespace JsString

def isHighSurrogate (u : UInt16) : Bool := 0xD800 ≤ u.toNat && u.toNat ≤ 0xDBFF

def isLowSurrogate (u : UInt16) : Bool := 0xDC00 ≤ u.toNat && u.toNat ≤ 0xDFFF

/-! ## UTF-8 -/

/-- A unit that is not part of a surrogate pair. -/
def loneCodePoint (u : UInt16) : ℕ :=
  if isHighSurrogate u || isLowSurrogate u then 0xFFFD else u.toNat

/-- The code points of a string. -/
def codePoints : JsString → List ℕ
  | [] => []
  | [u] => [loneCodePoint u]
  | u :: v :: s =>
    if isHighSurrogate u && isLowSurrogate v then
      (0x10000 + (u.toNat - 0xD800) * 0x400 + (v.toNat - 0xDC00)) :: codePoints s
    else loneCodePoint u :: codePoints (v :: s)

/-- The bytes of a code point. -/
def utf8Bytes (n : ℕ) : List UInt8 :=
  if n < 0x80 then [n.toUInt8]
  else if n < 0x800 then [(0xC0 + n / 0x40).toUInt8, (0x80 + n % 0x40).toUInt8]
  else if n < 0x10000 then
    [(0xE0 + n / 0x1000).toUInt8, (0x80 + n / 0x40 % 0x40).toUInt8, (0x80 + n % 0x40).toUInt8]
  else
    [(0xF0 + n / 0x40000).toUInt8, (0x80 + n / 0x1000 % 0x40).toUInt8,
      (0x80 + n / 0x40 % 0x40).toUInt8, (0x80 + n % 0x40).toUInt8]

/-- `Buffer.from(s)`. -/
def utf8 (s : JsString) : List UInt8 := (codePoints s).flatMap utf8Bytes

/-- A unit below U+0080. -/
def isAscii (u : UInt16) : Bool := u.toNat < 0x80

theorem not_isHighSurrogate_of_isAscii {u : UInt16} (h : isAscii u = true) :
    isHighSurrogate u = false := by
  rw [isAscii, decide_eq_true_eq] at h
  rw [isHighSurrogate, Bool.and_eq_false_iff, decide_eq_false_iff_not]
  left
  omega

theorem loneCodePoint_of_isAscii {u : UInt16} (h : isAscii u = true) :
    loneCodePoint u = u.toNat := by
  rw [loneCodePoint, not_isHighSurrogate_of_isAscii h, Bool.false_or, if_neg]
  rw [isAscii, decide_eq_true_eq] at h
  rw [isLowSurrogate, Bool.and_eq_true, decide_eq_true_eq]
  omega

theorem codePoints_cons_of_isAscii {u : UInt16} (h : isAscii u = true) (s : JsString) :
    codePoints (u :: s) = u.toNat :: codePoints s := by
  cases s with
  | nil => exact congrArg (· :: []) (loneCodePoint_of_isAscii h)
  | cons v s =>
    rw [codePoints, not_isHighSurrogate_of_isAscii h, Bool.false_and, if_neg Bool.false_ne_true,
      loneCodePoint_of_isAscii h]

/-- A text of ASCII characters is written byte by byte, whatever follows. -/
theorem utf8_append_of_isAscii {s : JsString} (h : ∀ u ∈ s, isAscii u = true) (t : JsString) :
    utf8 (s ++ t) = s.map (fun u ↦ u.toNat.toUInt8) ++ utf8 t := by
  induction s with
  | nil => rfl
  | cons u s ih =>
    have hu := h u List.mem_cons_self
    rw [List.cons_append, utf8, codePoints_cons_of_isAscii hu, List.flatMap_cons, utf8Bytes,
      if_pos (of_decide_eq_true hu), List.map_cons, List.cons_append]
    exact congrArg _ (ih fun v hv ↦ h v (List.mem_cons_of_mem _ hv))

/-! ## `JSON.stringify` -/

/-- A hexadecimal digit in lower case. -/
def hexLower (n : ℕ) : UInt16 := if n < 10 then (0x30 + n).toUInt16 else (0x57 + n).toUInt16

/-- `\\u` and four digits. -/
def unicodeEscape (u : UInt16) : JsString :=
  [0x5C, 0x75, hexLower (u.toNat / 0x1000), hexLower (u.toNat / 0x100 % 0x10),
    hexLower (u.toNat / 0x10 % 0x10), hexLower (u.toNat % 0x10)]

/-- A unit that is not part of a surrogate pair, inside a string literal. -/
def escapeUnit (u : UInt16) : JsString :=
  if u = 0x22 ∨ u = 0x5C then [0x5C, u]
  else if u = 0x08 then [0x5C, 0x62]
  else if u = 0x09 then [0x5C, 0x74]
  else if u = 0x0A then [0x5C, 0x6E]
  else if u = 0x0C then [0x5C, 0x66]
  else if u = 0x0D then [0x5C, 0x72]
  else if u.toNat < 0x20 || isHighSurrogate u || isLowSurrogate u then unicodeEscape u
  else [u]

def escape : JsString → JsString
  | [] => []
  | [u] => escapeUnit u
  | u :: v :: s =>
    if isHighSurrogate u && isLowSurrogate v then u :: v :: escape s
    else escapeUnit u ++ escape (v :: s)

/-- A character that a string literal shows as it is. -/
def isPlain (u : UInt16) : Bool :=
  isAscii u && 0x20 ≤ u.toNat && u != 0x22 && u != 0x5C

theorem isAscii_of_isPlain {u : UInt16} (h : isPlain u = true) : isAscii u = true := by
  simp only [isPlain, Bool.and_eq_true] at h
  exact h.1.1.1

theorem escapeUnit_of_isPlain {u : UInt16} (h : isPlain u = true) : escapeUnit u = [u] := by
  have hne : ∀ v, isPlain v = false → u ≠ v := by
    rintro v hv rfl
    rw [h] at hv
    cases hv
  rw [isPlain, Bool.and_eq_true, Bool.and_eq_true, Bool.and_eq_true, isAscii, decide_eq_true_eq,
    decide_eq_true_eq] at h
  obtain ⟨⟨⟨hascii, hspace⟩, -⟩, -⟩ := h
  rw [escapeUnit, if_neg (not_or.mpr ⟨hne _ rfl, hne _ rfl⟩), if_neg (hne _ rfl),
    if_neg (hne _ rfl), if_neg (hne _ rfl), if_neg (hne _ rfl), if_neg (hne _ rfl), if_neg]
  simp only [isHighSurrogate, isLowSurrogate, Bool.or_eq_true, Bool.and_eq_true, decide_eq_true_eq]
  omega

theorem escape_of_isPlain {s : JsString} (h : ∀ u ∈ s, isPlain u = true) : escape s = s := by
  induction s with
  | nil => rfl
  | cons u s ih =>
    have hu := h u List.mem_cons_self
    have hs := ih fun v hv ↦ h v (List.mem_cons_of_mem _ hv)
    cases s with
    | nil => exact escapeUnit_of_isPlain hu
    | cons v s =>
      rw [escape, not_isHighSurrogate_of_isAscii (isAscii_of_isPlain hu), Bool.false_and,
        if_neg Bool.false_ne_true, escapeUnit_of_isPlain hu, hs, List.singleton_append]

/-- `JSON.stringify(s)`. -/
def quote (s : JsString) : JsString := 0x22 :: escape s ++ [0x22]

end JsString
