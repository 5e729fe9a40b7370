import Mathlib.Data.List.DropRight
import Mathlib.Data.List.TakeWhile

/-!
# Strings of the JavaScript runtime

A JavaScript string is a sequence of 16-bit code units, not of characters: an escape in a JSON
text can produce a lone surrogate, and `length` counts units. `JsString` keeps exactly that, so
equality of map keys, lengths and prefixes are the runtime's own.

`Buffer.toString` decodes a message's bytes as UTF-8. It never throws: every ill-formed sequence
is replaced by U+FFFD, one replacement for each maximal subpart, as the Encoding standard's decoder
does it byte by byte.
-/

/-- A JavaScript string: its UTF-16 code units. -/
abbrev JsString := List UInt16

namespace JsString

/-- The code units of one code point. -/
def ofCodePoint (n : ℕ) : JsString :=
  if n < 0x10000 then [n.toUInt16]
  else [(0xD800 + (n - 0x10000) / 0x400).toUInt16, (0xDC00 + (n - 0x10000) % 0x400).toUInt16]

/-- The JavaScript string with the characters of `s`; used for the literals of the source. -/
def lit (s : String) : JsString := s.toList.flatMap fun c ↦ ofCodePoint c.toNat

/-- The units `String.prototype.trim` strips: white space and line terminators. -/
def isTrimmed (u : UInt16) : Bool :=
  (9 ≤ u.toNat && u.toNat ≤ 13) || u == 0x20 || u == 0xA0 || u == 0x1680 ||
    (0x2000 ≤ u.toNat && u.toNat ≤ 0x200A) || u == 0x2028 || u == 0x2029 || u == 0x202F ||
    u == 0x205F || u == 0x3000 || u == 0xFEFF

/-- `String.prototype.trim`. -/
def trim (s : JsString) : JsString :=
  ((s.dropWhile isTrimmed).reverse.dropWhile isTrimmed).reverse

/-- Nothing is left to be stripped. -/
theorem trim_trim (s : JsString) : s.trim.trim = s.trim := by
  have hstart : s.trim <+: s.dropWhile isTrimmed := List.rdropWhile_prefix _ _
  have hhead : s.trim.dropWhile isTrimmed = s.trim := by
    refine List.dropWhile_eq_self_iff.mpr fun hlength ↦ ?_
    have hfirst := List.dropWhile_eq_self_iff.mp (List.dropWhile_idempotent (p := isTrimmed) s)
      (hlength.trans_le hstart.length_le)
    rwa [hstart.getElem hlength]
  have htail : s.trim.rdropWhile isTrimmed = s.trim := List.rdropWhile_idempotent _ _
  rw [trim, hhead]
  exact htail

end JsString

/-! ## `Buffer.toString` -/

namespace Utf8

/-- The decoder between two bytes: how many continuation bytes are still needed, the code point
read so far, and the bounds on the next byte. -/
structure State where
  /-- Continuation bytes still needed. -/
  needed : ℕ := 0
  /-- The bits of the code point read so far. -/
  codePoint : ℕ := 0
  /-- Least admissible next byte. -/
  lower : ℕ := 0x80
  /-- Greatest admissible next byte. -/
  upper : ℕ := 0xBF

/-- The replacement character. -/
def replacement : JsString := [0xFFFD]

/-- A byte read between two characters: the units it completes and the state after it. -/
def lead (b : ℕ) : JsString × State :=
  if b ≤ 0x7F then ([b.toUInt16], {})
  else if 0xC2 ≤ b ∧ b ≤ 0xDF then ([], { needed := 1, codePoint := b % 0x20 })
  else if 0xE0 ≤ b ∧ b ≤ 0xEF then
    ([], { needed := 2, codePoint := b % 0x10,
           lower := if b = 0xE0 then 0xA0 else 0x80, upper := if b = 0xED then 0x9F else 0xBF })
  else if 0xF0 ≤ b ∧ b ≤ 0xF4 then
    ([], { needed := 3, codePoint := b % 0x08,
           lower := if b = 0xF0 then 0x90 else 0x80, upper := if b = 0xF4 then 0x8F else 0xBF })
  else (replacement, {})

/-- One byte. An inadmissible byte ends the character before it and is read again as a lead. -/
def step (s : State) (b : ℕ) : JsString × State :=
  if s.needed = 0 then lead b
  else if b < s.lower ∨ s.upper < b then (replacement ++ (lead b).1, (lead b).2)
  else if s.needed = 1 then (JsString.ofCodePoint (s.codePoint * 0x40 + b % 0x40), {})
  else ([], { needed := s.needed - 1, codePoint := s.codePoint * 0x40 + b % 0x40 })

/-- The decoder run over the rest of the bytes. -/
def decodeFrom (s : State) : List UInt8 → JsString
  | [] => if s.needed = 0 then [] else replacement
  | b :: bs => (step s b.toNat).1 ++ decodeFrom (step s b.toNat).2 bs

/-- `buffer.toString()`. -/
def decode (bytes : List UInt8) : JsString := decodeFrom {} bytes

example : decode [0x68, 0xC3, 0xA9, 0xFF] = JsString.lit "hé" ++ replacement := by decide

end Utf8
