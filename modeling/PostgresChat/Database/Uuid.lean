import Mathlib.Data.List.Basic
import PostgresChat.Js.Encode

/-!
# UUID input and output

A UUID is thirty-two hexadecimal digits. PostgreSQL prints it in lower case with hyphens after the
eighth, twelfth, sixteenth and twentieth digit (`text`), and reads it more liberally: letters of
either case, a hyphen or none after every fourth digit, and braces around the whole (`parse`). The
triggers name a room's channel by `room_id::text`, while a query compares ids after parsing, so both
directions decide which clients a notification reaches.
-/

namespace PostgresChat

/-- A value of type `uuid`. -/
structure Uuid where
  /-- The hexadecimal digits, most significant first. -/
  digits : List (Fin 16)
  /-- There are thirty-two of them. -/
  length_digits : digits.length = 32
  deriving DecidableEq

namespace Uuid

/-- The nil UUID. -/
def nil : Uuid := ⟨List.replicate 32 0, rfl⟩

/-- One digit throughout. -/
def repeated (d : Fin 16) : Uuid := ⟨List.replicate 32 d, List.length_replicate⟩

/-- `repeated`, the digit as a number. -/
def ofDigit (n : ℕ) : Uuid := .repeated (Fin.ofNat 16 n)

/-- The lower-case digit PostgreSQL prints. -/
def hexUnit (d : Fin 16) : UInt16 :=
  if d.val < 10 then (0x30 + d.val).toUInt16 else (0x57 + d.val).toUInt16

/-- The digit a unit denotes, in either case. -/
def hexValue (u : UInt16) : Option (Fin 16) :=
  let n := u.toNat
  if 0x30 ≤ n ∧ n ≤ 0x39 then some (Fin.ofNat 16 (n - 0x30))
  else if 0x41 ≤ n ∧ n ≤ 0x46 then some (Fin.ofNat 16 (n - 0x37))
  else if 0x61 ≤ n ∧ n ≤ 0x66 then some (Fin.ofNat 16 (n - 0x57))
  else none

def hyphen : UInt16 := 0x2D

/-- The printed form of the last digits. A hyphen stands before the last 24, 20, 16 and 12. -/
def printDigits : List (Fin 16) → JsString
  | [] => []
  | d :: ds =>
    if ds.length ∈ [24, 20, 16, 12] then hexUnit d :: hyphen :: printDigits ds
    else hexUnit d :: printDigits ds

/-- `id::text`. -/
def text (id : Uuid) : JsString := printDigits id.digits

/-- Skip a hyphen, if `s` starts with one. -/
def dropHyphen (s : JsString) : JsString := if s.head? = some hyphen then s.tail else s

/-- Read the `n` last digits: a hyphen may follow each group of four but the last. -/
def readDigits : ℕ → JsString → Option (List (Fin 16) × JsString)
  | 0, s => some ([], s)
  | _ + 1, [] => none
  | n + 1, u :: s => do
    let d ← hexValue u
    let (ds, rest) ← readDigits n (if n % 4 = 0 ∧ n ≠ 0 then dropHyphen s else s)
    return (d :: ds, rest)

theorem length_of_readDigits {n : ℕ} {s rest : JsString} {ds : List (Fin 16)}
    (h : readDigits n s = some (ds, rest)) : ds.length = n := by
  induction n generalizing s ds with
  | zero =>
    rw [readDigits, Option.some.injEq, Prod.mk.injEq] at h
    rw [← h.1, List.length_nil]
  | succ n ih =>
    cases s with
    | nil => cases h
    | cons u s =>
      simp only [readDigits, Option.bind_eq_bind, Option.bind_eq_some_iff, Prod.exists] at h
      obtain ⟨d, -, ds', rest', hrec, hres⟩ := h
      cases hres
      rw [List.length_cons, ih hrec]

/-- The UUID whose digits `s` starts with, if nothing but `rest` follows them. -/
def parseDigits (s rest : JsString) : Option Uuid :=
  match h : readDigits 32 s with
  | some (ds, rest') => if rest' = rest then some ⟨ds, length_of_readDigits h⟩ else none
  | none => none

/-- `text::uuid`; `none` is the error "invalid input syntax for type uuid". -/
def parse (s : JsString) : Option Uuid :=
  if s.head? = some 0x7B then parseDigits s.tail [0x7D] else parseDigits s []

/-! ## Accepted spellings -/

/-- A unit of an accepted spelling: a digit in either case, a hyphen or a brace. -/
def isUuidUnit (u : UInt16) : Bool :=
  (hexValue u).isSome || u = hyphen || u = 0x7B || u = 0x7D

theorem readDigits_spelling {n : ℕ} {s rest : JsString} {ds : List (Fin 16)}
    (h : readDigits n s = some (ds, rest)) :
    ∃ taken, s = taken ++ rest ∧ taken.length ≤ n + (n - 1) / 4 ∧
      ∀ u ∈ taken, isUuidUnit u = true := by
  induction n generalizing s ds with
  | zero =>
    rw [readDigits, Option.some.injEq, Prod.mk.injEq] at h
    exact ⟨[], h.2, Nat.le_refl _, nofun⟩
  | succ n ih =>
    cases s with
    | nil => cases h
    | cons u s =>
      simp only [readDigits, Option.bind_eq_bind, Option.bind_eq_some_iff, Prod.exists] at h
      obtain ⟨d, hd, ds', rest', hrec, hres⟩ := h
      cases hres
      obtain ⟨taken, htaken, hlength, hunits⟩ := ih hrec
      have hu : isUuidUnit u = true := by rw [isUuidUnit, hd]; rfl
      -- A hyphen that is skipped is taken as well.
      have hskipped : ∃ taken', s = taken' ++ rest ∧
          taken'.length ≤ n + n / 4 ∧ ∀ v ∈ taken', isUuidUnit v = true := by
        split at htaken
        · rename_i hgroup
          rw [dropHyphen] at htaken
          split at htaken
          · rename_i hhyphen
            obtain ⟨t, rfl⟩ := List.head?_eq_some_iff.mp hhyphen
            refine ⟨hyphen :: taken, congrArg _ htaken, ?_, ?_⟩
            · rw [List.length_cons]
              omega
            · exact List.forall_mem_cons.mpr ⟨rfl, hunits⟩
          · exact ⟨taken, htaken, by omega, hunits⟩
        · exact ⟨taken, htaken, by omega, hunits⟩
      obtain ⟨taken', rfl, hlength', hunits'⟩ := hskipped
      refine ⟨u :: taken', rfl, ?_, List.forall_mem_cons.mpr ⟨hu, hunits'⟩⟩
      rw [List.length_cons, Nat.add_sub_cancel]
      omega

/-- What is read as a UUID: at most 32 digits, a hyphen after all groups of four but the last, and
two braces. -/
theorem spelling_of_parse {s : JsString} {id : Uuid} (h : parse s = some id) :
    s.length ≤ 41 ∧ ∀ u ∈ s, isUuidUnit u = true := by
  have hdigits : ∀ {t rest : JsString}, parseDigits t rest = some id → ∃ taken, t = taken ++ rest ∧
      taken.length ≤ 39 ∧ ∀ u ∈ taken, isUuidUnit u = true := by
    intro t rest h
    rw [parseDigits] at h
    split at h
    · rename_i ds rest' hread
      rw [Option.ite_none_right_eq_some] at h
      exact h.1 ▸ readDigits_spelling hread
    · cases h
  rw [parse] at h
  split at h
  · rename_i hbrace
    obtain ⟨t, rfl⟩ := List.head?_eq_some_iff.mp hbrace
    obtain ⟨taken, rfl, hlength, hunits⟩ := hdigits h
    refine ⟨by rw [List.length_cons, List.length_append, List.length_singleton]; omega, ?_⟩
    refine List.forall_mem_cons.mpr ⟨rfl, fun u hu ↦ ?_⟩
    rcases List.mem_append.mp hu with hu | hu
    · exact hunits u hu
    · rw [List.mem_singleton.mp hu]
      rfl
  · obtain ⟨taken, rfl, hlength, hunits⟩ := hdigits h
    rw [List.append_nil]
    exact ⟨by omega, hunits⟩

/-- These units lie between the hyphen and the closing brace. -/
theorem range_of_isUuidUnit {u : UInt16} (h : isUuidUnit u = true) :
    0x2D ≤ u.toNat ∧ u.toNat ≤ 0x7D := by
  rw [isUuidUnit, Bool.or_eq_true, Bool.or_eq_true, Bool.or_eq_true, decide_eq_true_eq,
    decide_eq_true_eq, decide_eq_true_eq] at h
  rcases h with ((h | rfl) | rfl) | rfl
  · rw [hexValue] at h
    split at h
    · omega
    · split at h
      · omega
      · split at h
        · omega
        · cases h
  all_goals decide

/-- These units are ASCII characters, and no quotation marks. -/
theorem isAscii_of_isUuidUnit {u : UInt16} (h : isUuidUnit u = true) :
    JsString.isAscii u = true ∧ u ≠ 0x22 := by
  have hrange := range_of_isUuidUnit h
  refine ⟨decide_eq_true (by omega), ?_⟩
  rintro rfl
  exact absurd hrange.1 (by decide)

/-- Nothing is trimmed off what is read as a UUID. -/
theorem trim_of_parse {s : JsString} {id : Uuid} (h : parse s = some id) : s.trim = s := by
  have hkeep : ∀ t : JsString, (∀ u ∈ t, isUuidUnit u = true) →
      t.dropWhile JsString.isTrimmed = t := by
    intro t ht
    cases t with
    | nil => rfl
    | cons u t =>
      have hrange := range_of_isUuidUnit (ht u List.mem_cons_self)
      refine List.dropWhile_cons_of_neg fun htrimmed ↦ ?_
      simp only [JsString.isTrimmed, Bool.or_eq_true, Bool.and_eq_true, decide_eq_true_eq,
        beq_iff_eq, ← UInt16.toNat_inj] at htrimmed
      simp only [UInt16.reduceToNat] at htrimmed
      omega
  have hunits := (spelling_of_parse h).2
  rw [JsString.trim, hkeep _ hunits, hkeep _ fun u hu ↦ hunits u (List.mem_reverse.mp hu),
    List.reverse_reverse]

/-! ## The printed form is read back -/

@[simp] theorem hexValue_hexUnit (d : Fin 16) : hexValue (hexUnit d) = some d := by
  revert d
  decide

theorem hexUnit_ne_hyphen (d : Fin 16) : hexUnit d ≠ hyphen := by
  revert d
  decide

theorem hexUnit_ne_lbrace (d : Fin 16) : hexUnit d ≠ 0x7B := by
  revert d
  decide

theorem dropHyphen_printDigits (ds : List (Fin 16)) :
    dropHyphen (printDigits ds) = printDigits ds := by
  cases ds with
  | nil => rfl
  | cons d ds =>
    rw [dropHyphen, if_neg]
    rw [printDigits]
    split <;> simpa using hexUnit_ne_hyphen d

theorem readDigits_printDigits (ds : List (Fin 16)) :
    readDigits ds.length (printDigits ds) = some (ds, []) := by
  induction ds with
  | nil => rfl
  | cons d ds ih =>
    rw [List.length_cons, printDigits]
    split
    · rename_i hgroup
      have hskip : ds.length % 4 = 0 ∧ ds.length ≠ 0 := by
        simp only [List.mem_cons, List.not_mem_nil, or_false] at hgroup
        omega
      have hdrop : dropHyphen (hyphen :: printDigits ds) = printDigits ds := by
        rw [dropHyphen, List.head?_cons, if_pos rfl, List.tail_cons]
      simp only [readDigits, hexValue_hexUnit, if_pos hskip, hdrop, ih, Option.bind_eq_bind,
        Option.bind_some, Option.pure_def]
    · simp only [readDigits, hexValue_hexUnit, dropHyphen_printDigits, ite_self, ih,
        Option.bind_eq_bind, Option.bind_some, Option.pure_def]

@[simp] theorem parse_text (id : Uuid) : parse id.text = some id := by
  obtain ⟨ds, hds⟩ := id
  have hread : readDigits 32 (printDigits ds) = some (ds, []) := hds ▸ readDigits_printDigits ds
  have hhead : (printDigits ds).head? ≠ some 0x7B := by
    cases ds with
    | nil => simp [printDigits]
    | cons d ds =>
      rw [printDigits]
      split <;> simpa using hexUnit_ne_lbrace d
  rw [parse, text, if_neg hhead, parseDigits]
  split
  · rename_i ds' rest' h
    rw [hread, Option.some.injEq, Prod.mk.injEq] at h
    obtain ⟨rfl, rfl⟩ := h
    rw [if_pos rfl]
  · rename_i h
    rw [hread] at h
    cases h

theorem text_injective : Function.Injective text := fun a b h ↦ by
  have := parse_text a
  rw [h, parse_text, Option.some.injEq] at this
  exact this.symm

@[simp] theorem text_inj {a b : Uuid} : a.text = b.text ↔ a = b := text_injective.eq_iff

/-- A digit is one unit, and those before the last 24, 20, 16 and 12 digits are followed by one
more. -/
theorem length_printDigits (ds : List (Fin 16)) :
    (printDigits ds).length = ds.length + ([24, 20, 16, 12].filter (· < ds.length)).length := by
  induction ds with
  | nil => rfl
  | cons d ds ih =>
    rw [printDigits]
    split
    · rename_i hgroup
      simp only [List.mem_cons, List.not_mem_nil, or_false] at hgroup
      rcases hgroup with h | h | h | h <;> simp [ih, h]
    · rename_i hgroup
      simp only [List.mem_cons, List.not_mem_nil, or_false, not_or] at hgroup
      rw [List.length_cons, ih, List.length_cons]
      have hfilter : [24, 20, 16, 12].filter (· < ds.length + 1) =
          [24, 20, 16, 12].filter (· < ds.length) := by
        refine List.filter_congr fun n hn ↦ ?_
        simp only [List.mem_cons, List.not_mem_nil, or_false] at hn
        rw [decide_eq_decide]
        omega
      rw [hfilter]
      omega

theorem length_text (id : Uuid) : id.text.length = 36 := by
  rw [text, length_printDigits, id.length_digits]
  rfl

theorem text_ne_nil (id : Uuid) : id.text ≠ [] :=
  List.ne_nil_of_length_pos (by rw [length_text]; decide)

theorem eq_of_mem_printDigits {ds : List (Fin 16)} {u : UInt16} (h : u ∈ printDigits ds) :
    u = hyphen ∨ ∃ d, u = hexUnit d := by
  induction ds with
  | nil => cases h
  | cons d ds ih =>
    rw [printDigits] at h
    split at h
    · rcases List.mem_cons.mp h with rfl | h
      · exact Or.inr ⟨d, rfl⟩
      · rcases List.mem_cons.mp h with rfl | h
        · exact Or.inl rfl
        · exact ih h
    · rcases List.mem_cons.mp h with rfl | h
      · exact Or.inr ⟨d, rfl⟩
      · exact ih h

end Uuid

end PostgresChat
