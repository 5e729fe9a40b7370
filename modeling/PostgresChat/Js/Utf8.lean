import Mathlib.Data.List.Forall2
import PostgresChat.Js.Encode

/-!
# Decoding what was encoded

`Buffer.from(s).toString()` is `s` with U+FFFD in place of every surrogate without its partner,
which is what `String.prototype.toWellFormed` returns. The bytes of a character take the decoder
from between two characters to between two characters, whatever follows, so texts that are put
together from encoded pieces are decoded piece by piece (`Decodes`).
-/

namespace JsString

/-! ## Code points -/

/-- `String.prototype.toWellFormed`. -/
def toWellFormed (s : JsString) : JsString := (codePoints s).flatMap ofCodePoint

theorem toWellFormed_of_isAscii {s : JsString} (h : s.all isAscii = true) : toWellFormed s = s := by
  induction s with
  | nil => rfl
  | cons u s ih =>
    rw [List.all_cons, Bool.and_eq_true] at h
    have hu := h.1
    rw [isAscii, decide_eq_true_eq] at hu
    rw [toWellFormed, codePoints_cons_of_isAscii h.1, List.flatMap_cons, ofCodePoint,
      if_pos (by omega), Nat.toUInt16_eq, UInt16.ofNat_toNat]
    exact congrArg (u :: ·) (ih h.2)

/-- A code point that is not a surrogate. -/
def IsScalar (n : ℕ) : Prop := n < 0xD800 ∨ 0xE000 ≤ n ∧ n < 0x110000

theorem isScalar_loneCodePoint (u : UInt16) : IsScalar (loneCodePoint u) := by
  have hu : u.toNat < 0x10000 := u.toNat_lt
  rw [loneCodePoint, IsScalar]
  split
  · omega
  · rename_i hlone
    rw [isHighSurrogate, isLowSurrogate] at hlone
    simp only [Bool.or_eq_true, Bool.and_eq_true, decide_eq_true_eq] at hlone
    omega

theorem isScalar_of_mem_codePoints {s : JsString} {n : ℕ} (hn : n ∈ codePoints s) :
    IsScalar n := by
  induction s using codePoints.induct with
  | case1 => cases hn
  | case2 u =>
    rw [codePoints, List.mem_singleton] at hn
    rw [hn]
    exact isScalar_loneCodePoint u
  | case3 u v s hpair ih =>
    rw [codePoints, if_pos hpair, List.mem_cons] at hn
    rcases hn with hn | hn
    · rw [isHighSurrogate, isLowSurrogate] at hpair
      simp only [Bool.and_eq_true, decide_eq_true_eq] at hpair
      rw [IsScalar]
      omega
    · exact ih hn
  | case4 u v s hpair ih =>
    rw [codePoints, if_neg hpair, List.mem_cons] at hn
    rcases hn with rfl | hn
    · exact isScalar_loneCodePoint u
    · exact ih hn

end JsString

/-! ## Pieces of a text -/

namespace Utf8

open JsString

/-- Between two characters, the bytes are decoded to the text, whatever follows. -/
def Decodes (bytes : List UInt8) (text : JsString) : Prop :=
  ∀ rest, decodeFrom {} (bytes ++ rest) = text ++ decodeFrom {} rest

theorem Decodes.decode {bytes : List UInt8} {text : JsString} (h : Decodes bytes text) :
    decode bytes = text := by
  have hall := h []
  rw [List.append_nil, decodeFrom, if_pos rfl, List.append_nil] at hall
  exact hall

theorem Decodes.nil : Decodes [] [] := fun _ ↦ rfl

theorem Decodes.append {bytes bytes' : List UInt8} {text text' : JsString}
    (h : Decodes bytes text) (h' : Decodes bytes' text') :
    Decodes (bytes ++ bytes') (text ++ text') := by
  intro rest
  rw [List.append_assoc, h, h', List.append_assoc]

theorem Decodes.flatMap {α : Type} {l : List α} {f : α → List UInt8} {g : α → JsString}
    (h : ∀ x ∈ l, Decodes (f x) (g x)) : Decodes (l.flatMap f) (l.flatMap g) := by
  induction l with
  | nil => exact .nil
  | cons x l ih =>
    rw [List.flatMap_cons, List.flatMap_cons]
    exact (h x List.mem_cons_self).append (ih fun y hy ↦ h y (List.mem_cons_of_mem _ hy))

theorem Decodes.intercalate {sep : List UInt8} {sepText : JsString} (hsep : Decodes sep sepText)
    {pieces : List (List UInt8)} {texts : List JsString} (h : List.Forall₂ Decodes pieces texts) :
    Decodes (sep.intercalate pieces) (sepText.intercalate texts) := by
  induction h with
  | nil => exact .nil
  | cons hfirst hrest ih =>
    cases hrest with
    | nil =>
      rw [List.intercalate_singleton, List.intercalate_singleton]
      exact hfirst
    | cons hsecond hrest =>
      rw [List.intercalate_cons_cons, List.intercalate_cons_cons]
      exact (hfirst.append hsep).append ih

/-! ## One character -/

theorem toNat_toUInt8 {n : ℕ} (hn : n < 0x100) : n.toUInt8.toNat = n := by
  rw [Nat.toUInt8_eq, UInt8.toNat_ofNat', Nat.mod_eq_of_lt hn]

theorem decodeFrom_lead {b : ℕ} (hb : b < 0x100) (rest : List UInt8) :
    decodeFrom {} (b.toUInt8 :: rest) = (lead b).1 ++ decodeFrom (lead b).2 rest := by
  rw [decodeFrom, toNat_toUInt8 hb]
  rfl

theorem step_continue {s : State} {b : ℕ} (hneeded : s.needed ≠ 0) (hlower : s.lower ≤ b)
    (hupper : b ≤ s.upper) :
    step s b = if s.needed = 1 then (ofCodePoint (s.codePoint * 0x40 + b % 0x40), {})
      else ([], { needed := s.needed - 1, codePoint := s.codePoint * 0x40 + b % 0x40 }) := by
  rw [step, if_neg hneeded, if_neg (by omega)]

/-- The last byte of a character. -/
theorem decodeFrom_last {c lower upper b : ℕ} (hlower : lower ≤ b) (hupper : b ≤ upper)
    (hb : b < 0x100) (rest : List UInt8) :
    decodeFrom ⟨1, c, lower, upper⟩ (b.toUInt8 :: rest) =
      ofCodePoint (c * 0x40 + b % 0x40) ++ decodeFrom {} rest := by
  rw [decodeFrom, toNat_toUInt8 hb, step_continue Nat.one_ne_zero hlower hupper, if_pos rfl]

/-- A byte inside a character. -/
theorem decodeFrom_inner {k c lower upper b : ℕ} (hlower : lower ≤ b) (hupper : b ≤ upper)
    (hb : b < 0x100) (rest : List UInt8) :
    decodeFrom ⟨k + 2, c, lower, upper⟩ (b.toUInt8 :: rest) =
      decodeFrom ⟨k + 1, c * 0x40 + b % 0x40, 0x80, 0xBF⟩ rest := by
  rw [decodeFrom, toNat_toUInt8 hb, step_continue (Nat.succ_ne_zero _) hlower hupper,
    if_neg (show k + 2 ≠ 1 by omega)]
  rfl

theorem decodes_ascii {n : ℕ} (hn : n < 0x80) : Decodes [n.toUInt8] [n.toUInt16] := by
  intro rest
  rw [List.singleton_append, decodeFrom_lead (by omega), lead, if_pos (by omega)]

theorem decodes_of_isAscii {s : JsString} (h : s.all isAscii = true) :
    Decodes (s.map fun u ↦ u.toNat.toUInt8) s := by
  induction s with
  | nil => exact .nil
  | cons u s ih =>
    rw [List.all_cons, Bool.and_eq_true, isAscii, decide_eq_true_eq] at h
    have hunit := decodes_ascii h.1
    rw [Nat.toUInt16_eq, UInt16.ofNat_toNat] at hunit
    exact hunit.append (ih h.2)

/-- No byte of a longer character is one of ASCII. -/
theorem le_toNat_of_mem_utf8Bytes {n : ℕ} (hn : IsScalar n) (hle : 0x80 ≤ n) {b : UInt8}
    (hb : b ∈ utf8Bytes n) : 0x80 ≤ b.toNat := by
  have hbyte : ∀ m, 0x80 ≤ m → m < 0x100 → b = m.toUInt8 → 0x80 ≤ b.toNat := by
    rintro m hm hlt rfl
    rwa [toNat_toUInt8 hlt]
  rw [IsScalar] at hn
  rw [utf8Bytes, if_neg (by omega)] at hb
  split_ifs at hb
  all_goals simp only [List.mem_cons, List.not_mem_nil, or_false] at hb
  · rcases hb with hb | hb
    all_goals exact hbyte _ (by omega) (by omega) hb
  · rcases hb with hb | hb | hb
    all_goals exact hbyte _ (by omega) (by omega) hb
  · rcases hb with hb | hb | hb | hb
    all_goals exact hbyte _ (by omega) (by omega) hb

/-- The bytes complete the character that the decoder is in the middle of, and it is `n`. -/
inductive Completes (n : ℕ) : State → List UInt8 → Prop
  | last {c lower upper b : ℕ} (hlower : lower ≤ b) (hupper : b ≤ upper) (hb : b < 0x100)
      (hn : c * 0x40 + b % 0x40 = n) : Completes n ⟨1, c, lower, upper⟩ [b.toUInt8]
  | inner {k c lower upper b : ℕ} {bytes : List UInt8} (hlower : lower ≤ b) (hupper : b ≤ upper)
      (hb : b < 0x100) (h : Completes n ⟨k + 1, c * 0x40 + b % 0x40, 0x80, 0xBF⟩ bytes) :
      Completes n ⟨k + 2, c, lower, upper⟩ (b.toUInt8 :: bytes)

/-- A character beyond ASCII is a lead byte and the bytes that complete it. -/
theorem utf8Bytes_completes {n : ℕ} (hn : IsScalar n) (hle : 0x80 ≤ n) : ∃ b bytes s,
    utf8Bytes n = b.toUInt8 :: bytes ∧ 0xC2 ≤ b ∧ b ≤ 0xF4 ∧ lead b = ([], s) ∧
      Completes n s bytes := by
  rw [IsScalar] at hn
  rw [utf8Bytes, if_neg (by omega)]
  split
  · have hlead : lead (0xC0 + n / 0x40) = ([], ⟨1, n / 0x40, 0x80, 0xBF⟩) := by
      rw [lead, if_neg (by omega), if_pos (by omega),
        show (0xC0 + n / 0x40) % 0x20 = n / 0x40 by omega]
    exact ⟨_, _, _, rfl, by omega, by omega, hlead, .last (by omega) (by omega) (by omega)
      (by omega)⟩
  · split
    · obtain ⟨lower, upper, hlower, hupper, hlead⟩ : ∃ lower upper,
          lower ≤ 0x80 + n / 0x40 % 0x40 ∧ 0x80 + n / 0x40 % 0x40 ≤ upper ∧
          lead (0xE0 + n / 0x1000) = ([], ⟨2, n / 0x1000, lower, upper⟩) := by
        refine ⟨if 0xE0 + n / 0x1000 = 0xE0 then 0xA0 else 0x80,
          if 0xE0 + n / 0x1000 = 0xED then 0x9F else 0xBF, ?_, ?_, ?_⟩
        · split <;> omega
        · split <;> omega
        · rw [lead, if_neg (by omega), if_neg (by omega), if_pos (by omega),
            show (0xE0 + n / 0x1000) % 0x10 = n / 0x1000 by omega]
      exact ⟨_, _, _, rfl, by omega, by omega, hlead, .inner hlower hupper (by omega)
        (.last (by omega) (by omega) (by omega) (by omega))⟩
    · obtain ⟨lower, upper, hlower, hupper, hlead⟩ : ∃ lower upper,
          lower ≤ 0x80 + n / 0x1000 % 0x40 ∧ 0x80 + n / 0x1000 % 0x40 ≤ upper ∧
          lead (0xF0 + n / 0x40000) = ([], ⟨3, n / 0x40000, lower, upper⟩) := by
        refine ⟨if 0xF0 + n / 0x40000 = 0xF0 then 0x90 else 0x80,
          if 0xF0 + n / 0x40000 = 0xF4 then 0x8F else 0xBF, ?_, ?_, ?_⟩
        · split <;> omega
        · split <;> omega
        · rw [lead, if_neg (by omega), if_neg (by omega), if_neg (by omega), if_pos (by omega),
            show (0xF0 + n / 0x40000) % 0x08 = n / 0x40000 by omega]
      exact ⟨_, _, _, rfl, by omega, by omega, hlead, .inner hlower hupper (by omega)
        (.inner (by omega) (by omega) (by omega)
          (.last (by omega) (by omega) (by omega) (by omega)))⟩

theorem Completes.decodeFrom {n : ℕ} {s : State} {bytes : List UInt8} (h : Completes n s bytes)
    (rest : List UInt8) : decodeFrom s (bytes ++ rest) = ofCodePoint n ++ decodeFrom {} rest := by
  induction h with
  | last hlower hupper hb hn =>
    rw [List.singleton_append, decodeFrom_last hlower hupper hb, hn]
  | inner hlower hupper hb h ih => rw [List.cons_append, decodeFrom_inner hlower hupper hb, ih]

theorem decodes_utf8Bytes {n : ℕ} (hn : IsScalar n) : Decodes (utf8Bytes n) (ofCodePoint n) := by
  intro rest
  by_cases hlt : n < 0x80
  · rw [utf8Bytes, if_pos hlt, decodes_ascii hlt, ofCodePoint, if_pos (by omega)]
  · obtain ⟨b, bytes, s, hbytes, -, hb, hlead, hcompletes⟩ := utf8Bytes_completes hn (by omega)
    rw [hbytes, List.cons_append, decodeFrom_lead (by omega), hlead]
    exact hcompletes.decodeFrom rest

/-- **Encoding and decoding.** -/
theorem decodes_utf8 (s : JsString) : Decodes (utf8 s) (toWellFormed s) :=
  .flatMap fun _ hn ↦ decodes_utf8Bytes (isScalar_of_mem_codePoints hn)

theorem decode_utf8 (s : JsString) : decode (utf8 s) = toWellFormed s := (decodes_utf8 s).decode

end Utf8
