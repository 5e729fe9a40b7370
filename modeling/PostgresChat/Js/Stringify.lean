import Mathlib.Data.List.Forall2
import PostgresChat.Js.Doubles
import PostgresChat.Js.Encode
import PostgresChat.Js.Numerals

/-!
# `JSON.stringify`

A text is written value by value and read back token by token. A piece of it is described by what
reading it does, whatever follows: a piece that spells a token brings that token (`Spells`), and a
piece that is read as a value takes the parser from where a value is expected to where that value is
complete (`ReadsAs`). Only the end of a word depends on what follows, and a word is never followed
by another one.

The pieces may be put together with any separators that spell a comma and a colon, so texts that
were not written by `JSON.stringify` are read in the same way.
-/

namespace Json

open JsString (lit quote escape escapeUnit)

/-! ## Writing -/

def stringifyNumber : JsNumber → JsString
  | .finite q => (JsNumber.finite q).toString
  | .nan | .infinity _ => lit "null"

mutual

/-- `JSON.stringify(value)`. Members are written in the order of the list: that of the runtime as
long as no name is repeated and none is an array index. -/
def stringify : Json → JsString
  | null => lit "null"
  | bool value => lit (if value then "true" else "false")
  | number n => stringifyNumber n
  | string s => quote s
  | array items => [0x5B] ++ [0x2C].intercalate (stringifyItems items) ++ [0x5D]
  | object members => [0x7B] ++ [0x2C].intercalate (stringifyMembers members) ++ [0x7D]

def stringifyItems : List Json → List JsString
  | [] => []
  | v :: items => stringify v :: stringifyItems items

def stringifyMembers : List (JsString × Json) → List JsString
  | [] => []
  | (name, v) :: members => (quote name ++ [0x3A] ++ stringify v) :: stringifyMembers members

end

/-! ## Reading pieces -/

/-- The value that the rest of the text completes. -/
def read (expect : Expect) (text : JsString) : Option Json :=
  (lexFrom .none text).bind (parseFrom expect)

/-- What may follow a word. -/
def Delimits (rest : JsString) : Prop := ∀ u, rest.head? = some u → isWordUnit u = false

/-- The text brings the token and ends with it. -/
structure Spells (text : JsString) (t : Token) : Prop where
  lex : ∀ rest, lexFrom .none (text ++ rest) = (lexFrom .none rest).map (t :: ·)
  delimits : ∀ rest, Delimits (text ++ rest)

/-- A value is expected, inside the open arrays and objects of `stack`. -/
inductive Expect.Awaits : Expect → List Frame → Prop
  | value (stack : List Frame) : Awaits (.value stack) stack
  | firstItem (stack : List Frame) : Awaits (.firstItem stack) (.array [] :: stack)

/-- The text completes the value where one is expected. -/
def ReadsAs (text : JsString) (v : Json) : Prop :=
  ∀ expect stack rest, Expect.Awaits expect stack → Delimits rest →
    read expect (text ++ rest) = read (.close stack v) rest

/-- The text completes the value of the member where a name is expected. -/
def ReadsMember (text : JsString) (m : JsString × Json) : Prop :=
  ∀ stack members rest, Delimits rest →
    read (.name stack members) (text ++ rest) =
      read (.close (.object members m.1 :: stack) m.2) rest

variable {text comma colon rest : JsString} {t : Token} {expect expect' : Expect} {v : Json}

theorem lexFrom_cons (lexeme : Lexeme) (u : UInt16) (text : JsString) :
    lexFrom lexeme (u :: text) =
      (lexStep lexeme u).bind fun p ↦ (lexFrom p.2 text).map (p.1 ++ ·) := by
  cases lexeme <;>
  · rw [lexFrom]
    simp only [Option.bind_eq_bind, Option.pure_def, Option.map_eq_bind]
    rfl

theorem lexFrom_of_lexStep {lexeme lexeme' : Lexeme} {u : UInt16}
    (h : lexStep lexeme u = some ([], lexeme')) (text : JsString) :
    lexFrom lexeme (u :: text) = lexFrom lexeme' text := by
  rw [lexFrom_cons, h, Option.bind_some]
  exact Option.map_id'

theorem parseFrom_cons (expect : Expect) (t : Token) (tokens : List Token) :
    parseFrom expect (t :: tokens) =
      (parseStep expect t).bind fun expect' ↦ parseFrom expect' tokens := by
  rw [parseFrom.eq_def]
  cases expect with
  | close stack value => cases stack <;> rfl
  | value | firstItem | name | colon => rfl

theorem read_of_lex (hlex : lexFrom .none text = (lexFrom .none rest).map (t :: ·))
    (hstep : parseStep expect t = some expect') : read expect text = read expect' rest := by
  rw [read, read, hlex, Option.bind_map]
  refine Option.bind_congr fun tokens _ ↦ ?_
  rw [Function.comp_apply, parseFrom_cons, hstep, Option.bind_some]

theorem Spells.read (h : Spells text t) (hstep : parseStep expect t = some expect')
    (rest : JsString) : read expect (text ++ rest) = read expect' rest :=
  read_of_lex (h.lex rest) hstep

theorem ReadsAs.parse (h : ReadsAs text v) : parse text = some v := by
  have hread := h (.value []) [] [] (.value []) nofun
  rw [List.append_nil] at hread
  exact hread

theorem Expect.Awaits.parseStep {stack : List Frame} (h : expect.Awaits stack)
    (ht : t ≠ .rbracket) : parseStep expect t = beginValue stack t := by
  cases h with
  | value => rfl
  | firstItem =>
    cases t with
    | rbracket => exact absurd rfl ht
    | lbrace | rbrace | lbracket | comma | colon | string | scalar => rfl

/-! ## Punctuation -/

theorem delimits_cons {u : UInt16} (hu : isWordUnit u = false) (rest : JsString) :
    Delimits (u :: rest) := by
  rintro _ ⟨⟩
  exact hu

theorem spells_singleton {u : UInt16} (h : beginLexeme u = some ([t], .none))
    (hu : isWordUnit u = false) : Spells [u] t where
  lex rest := by
    rw [List.singleton_append, lexFrom_cons, lexStep, h, Option.bind_some]
    rfl
  delimits rest := delimits_cons hu rest

theorem spells_comma : Spells [0x2C] .comma := spells_singleton rfl rfl

theorem spells_colon : Spells [0x3A] .colon := spells_singleton rfl rfl

theorem lexFrom_space (text : JsString) : lexFrom .none (0x20 :: text) = lexFrom .none text :=
  lexFrom_of_lexStep rfl text

/-- Blanks before a token. -/
theorem Spells.space_cons (h : Spells text t) : Spells (0x20 :: text) t where
  lex rest := by rw [List.cons_append, lexFrom_space, h.lex]
  delimits rest := delimits_cons rfl _

/-- Blanks after a token. -/
theorem Spells.append_space (h : Spells text t) : Spells (text ++ [0x20]) t where
  lex rest := by
    rw [List.append_assoc, h.lex, List.singleton_append, lexFrom_space]
  delimits rest := by
    rw [List.append_assoc]
    exact h.delimits _

/-! ## Strings -/

theorem lexFrom_quote (text : JsString) :
    lexFrom .none (0x22 :: text) = lexFrom (.string []) text := lexFrom_of_lexStep rfl text

theorem lexFrom_backslash (s text : JsString) :
    lexFrom (.string s) (0x5C :: text) = lexFrom (.escape s) text := lexFrom_of_lexStep rfl text

theorem lexFrom_escape_u (s text : JsString) :
    lexFrom (.escape s) (0x75 :: text) = lexFrom (.unicode s 0 0) text :=
  lexFrom_of_lexStep rfl text

theorem hexDigit_hexLower {d : ℕ} (hd : d < 0x10) :
    hexDigit (JsString.hexLower d) = some d := by
  have hall : ∀ d : Fin 0x10, hexDigit (JsString.hexLower d) = some d.val := by decide
  exact hall ⟨d, hd⟩

theorem lexFrom_unicode {d digits value : ℕ} (hd : d < 0x10) (hdigits : digits ≠ 3)
    (s text : JsString) :
    lexFrom (.unicode s digits value) (JsString.hexLower d :: text) =
      lexFrom (.unicode s (digits + 1) (16 * value + d)) text := by
  refine lexFrom_of_lexStep ?_ text
  rw [lexStep, hexDigit_hexLower hd, Option.map_some, if_neg hdigits]

theorem lexFrom_unicode_last {d value : ℕ} (hd : d < 0x10) (s text : JsString) :
    lexFrom (.unicode s 3 value) (JsString.hexLower d :: text) =
      lexFrom (.string ((16 * value + d).toUInt16 :: s)) text := by
  refine lexFrom_of_lexStep ?_ text
  rw [lexStep, hexDigit_hexLower hd, Option.map_some, if_pos rfl]

theorem lexFrom_unicodeEscape (u : UInt16) (s text : JsString) :
    lexFrom (.string s) (JsString.unicodeEscape u ++ text) = lexFrom (.string (u :: s)) text := by
  have hu : u.toNat < 0x10000 := u.toNat_lt
  have hvalue : (16 * (16 * (16 * (16 * 0 + u.toNat / 0x1000) + u.toNat / 0x100 % 0x10) +
      u.toNat / 0x10 % 0x10) + u.toNat % 0x10).toUInt16 = u := by
    rw [show 16 * (16 * (16 * (16 * 0 + u.toNat / 0x1000) + u.toNat / 0x100 % 0x10) +
      u.toNat / 0x10 % 0x10) + u.toNat % 0x10 = u.toNat by omega]
    exact UInt16.ofNat_toNat
  rw [JsString.unicodeEscape, List.cons_append, lexFrom_backslash, List.cons_append,
    lexFrom_escape_u, List.cons_append, lexFrom_unicode (by omega) (by decide), List.cons_append,
    lexFrom_unicode (by omega) (by decide), List.cons_append,
    lexFrom_unicode (by omega) (by decide), List.cons_append, lexFrom_unicode_last (by omega),
    hvalue, List.nil_append]

/-- A unit that stands for itself. -/
theorem lexFrom_unit {u : UInt16} (hquote : u ≠ 0x22) (hbackslash : u ≠ 0x5C)
    (hu : 0x20 ≤ u.toNat) (s text : JsString) :
    lexFrom (.string s) (u :: text) = lexFrom (.string (u :: s)) text := by
  refine lexFrom_of_lexStep ?_ text
  rw [lexStep, if_neg hquote, if_neg hbackslash, if_neg (not_lt.mpr hu)]

theorem lexFrom_escapeOf {u w : UInt16} (h : escapeOf u = some w) (hu : u ≠ 0x75)
    (s text : JsString) :
    lexFrom (.string s) (0x5C :: u :: text) = lexFrom (.string (w :: s)) text := by
  rw [lexFrom_backslash]
  refine lexFrom_of_lexStep ?_ text
  rw [lexStep, if_neg hu, h, Option.map_some]

theorem lexFrom_escapeUnit (u : UInt16) (s text : JsString) :
    lexFrom (.string s) (escapeUnit u ++ text) = lexFrom (.string (u :: s)) text := by
  rw [escapeUnit]
  split_ifs with hself hb ht hn hf hr hescaped
  · refine lexFrom_escapeOf ?_ ?_ s text
    · rw [escapeOf, if_pos (hself.imp_right Or.inl)]
    · rintro rfl
      exact absurd hself (by decide)
  · exact hb ▸ lexFrom_escapeOf rfl (by decide) s text
  · exact ht ▸ lexFrom_escapeOf rfl (by decide) s text
  · exact hn ▸ lexFrom_escapeOf rfl (by decide) s text
  · exact hf ▸ lexFrom_escapeOf rfl (by decide) s text
  · exact hr ▸ lexFrom_escapeOf rfl (by decide) s text
  · exact lexFrom_unicodeEscape u s text
  · rw [Bool.or_eq_true, Bool.or_eq_true, not_or, not_or, decide_eq_true_eq] at hescaped
    rw [not_or] at hself
    exact lexFrom_unit hself.1 hself.2 (by omega) s text

/-- The units of a surrogate pair stand for themselves. -/
theorem lexFrom_surrogate {u : UInt16} (hu : 0xD800 ≤ u.toNat) (s text : JsString) :
    lexFrom (.string s) (u :: text) = lexFrom (.string (u :: s)) text := by
  have hne : ∀ w : UInt16, w.toNat < 0xD800 → u ≠ w := by
    rintro w hw rfl
    omega
  exact lexFrom_unit (hne _ (by decide)) (hne _ (by decide)) (by omega) s text

theorem lexFrom_escape (s read text : JsString) :
    lexFrom (.string read) (escape s ++ text) = lexFrom (.string (s.reverse ++ read)) text := by
  induction s using JsString.escape.induct generalizing read with
  | case1 => rfl
  | case2 u =>
    rw [escape, lexFrom_escapeUnit]
    rfl
  | case3 u v s hpair ih =>
    rw [escape, if_pos hpair, List.cons_append, List.cons_append]
    rw [JsString.isHighSurrogate, JsString.isLowSurrogate] at hpair
    simp only [Bool.and_eq_true, decide_eq_true_eq] at hpair
    rw [lexFrom_surrogate (by omega), lexFrom_surrogate (by omega), ih, List.reverse_cons,
      List.reverse_cons, List.append_assoc, List.append_assoc]
    rfl
  | case4 u v s hpair ih =>
    rw [escape, if_neg hpair, List.append_assoc, lexFrom_escapeUnit, ih, List.reverse_cons (a := u),
      List.append_assoc]
    rfl

/-- The body of a string literal, in whatever way it is escaped. -/
theorem spells_literal {body s : JsString} (h : ∀ text,
      lexFrom (.string []) (body ++ text) = lexFrom (.string s.reverse) text) :
    Spells (0x22 :: body ++ [0x22]) (.string s) where
  lex rest := by
    rw [List.append_assoc, List.cons_append, lexFrom_quote, h, List.singleton_append, lexFrom_cons,
      lexStep, if_pos rfl, Option.bind_some, List.reverse_reverse]
    rfl
  delimits rest := delimits_cons rfl _

theorem spells_quote (s : JsString) : Spells (quote s) (.string s) :=
  spells_literal fun text ↦ by rw [lexFrom_escape, List.append_nil]

theorem Spells.readsAs {s : JsString} (h : Spells text (.string s)) :
    ReadsAs text (string s) := fun _ _ rest hawaits _ ↦
  h.read (hawaits.parseStep nofun) rest

/-! ## Words -/

theorem lexStep_of_isWordUnit {u : UInt16} (hu : isWordUnit u = true) :
    lexStep .none u = some ([], .word [u]) := by
  have hne : ∀ w : UInt16, isWordUnit w = false → u ≠ w := by
    rintro w hw rfl
    rw [hw] at hu
    cases hu
  rw [lexStep, beginLexeme, if_neg, if_neg (hne _ rfl), if_neg (hne _ rfl), if_neg (hne _ rfl),
    if_neg (hne _ rfl), if_neg (hne _ rfl), if_neg (hne _ rfl), if_neg (hne _ rfl), if_pos hu]
  rw [not_or, not_or, not_or]
  exact ⟨hne _ rfl, hne _ rfl, hne _ rfl, hne _ rfl⟩

theorem lexFrom_word_append {word : JsString} (hword : word.all isWordUnit = true)
    (s text : JsString) :
    lexFrom (.word s) (word ++ text) = lexFrom (.word (word.reverse ++ s)) text := by
  induction word generalizing s with
  | nil => rfl
  | cons u word ih =>
    rw [List.all_cons, Bool.and_eq_true] at hword
    have hstep : lexStep (.word s) u = some ([], .word (u :: s)) := by rw [lexStep, if_pos hword.1]
    rw [List.cons_append, lexFrom_of_lexStep hstep, ih hword.2, List.reverse_cons,
      List.append_assoc]
    rfl

theorem lexFrom_word {s : JsString} (hs : scalarOf s.reverse = some v) (hrest : Delimits rest) :
    lexFrom (.word s) rest = (lexFrom .none rest).map (.scalar v :: ·) := by
  cases rest with
  | nil =>
    change (scalarOf s.reverse).map _ = _
    rw [hs]
    rfl
  | cons u rest =>
    rw [lexFrom_cons, lexFrom_cons, lexStep, lexStep,
      if_neg (by rw [hrest u rfl]; exact Bool.false_ne_true), hs]
    cases beginLexeme u with
    | none => rfl
    | some p =>
      rw [Option.bind_some, Option.map_map]
      rfl

theorem readsAs_word {word : JsString} (hne : word ≠ []) (hword : word.all isWordUnit = true)
    (hv : scalarOf word = some v) : ReadsAs word v := by
  intro expect stack rest hawaits hrest
  obtain ⟨u, word, rfl⟩ := List.exists_cons_of_ne_nil hne
  have hall := Bool.and_eq_true_iff.mp (List.all_cons.symm.trans hword)
  refine read_of_lex (t := .scalar v) ?_ (hawaits.parseStep nofun)
  rw [List.cons_append, lexFrom_of_lexStep (lexStep_of_isWordUnit hall.1),
    lexFrom_word_append hall.2, lexFrom_word _ hrest]
  rw [List.reverse_append, List.reverse_reverse]
  exact hv

/-- `JSON.stringify` writes the number in a way that it is read back. -/
structure Readable (n : JsNumber) : Prop where
  ne_nil : stringifyNumber n ≠ []
  word : (stringifyNumber n).all isWordUnit = true
  scalar : scalarOf (stringifyNumber n) = some (number n)

theorem readsAs_stringifyNumber {n : JsNumber} (h : Readable n) :
    ReadsAs (stringifyNumber n) (number n) := readsAs_word h.ne_nil h.word h.scalar

/-! ## Arrays and objects -/

theorem read_items {texts : List JsString} {items : List Json} (hcomma : Spells comma .comma)
    (h : List.Forall₂ ReadsAs texts items) (hne : items ≠ []) {stack : List Frame}
    {read' : List Json} (hawaits : expect.Awaits (.array read' :: stack)) (rest : JsString) :
    read expect (comma.intercalate texts ++ 0x5D :: rest) =
      read (.close stack (array (read'.reverse ++ items))) rest := by
  induction h generalizing expect read' with
  | nil => exact absurd rfl hne
  | @cons text v texts items hfirst hrest ih =>
    cases hrest with
    | nil =>
      rw [List.intercalate_singleton, hfirst _ _ _ hawaits (delimits_cons rfl _),
        ← List.reverse_cons]
      exact (spells_singleton (u := 0x5D) rfl rfl).read rfl rest
    | cons hsecond hrest =>
      rw [List.intercalate_cons_cons, List.append_assoc, List.append_assoc,
        hfirst _ _ _ hawaits (hcomma.delimits _), hcomma.read rfl,
        ih (List.cons_ne_nil _ _) (.value _), List.reverse_cons, List.append_assoc]
      rfl

theorem readsAs_array {texts : List JsString} {items : List Json} (hcomma : Spells comma .comma)
    (h : List.Forall₂ ReadsAs texts items) :
    ReadsAs ([0x5B] ++ comma.intercalate texts ++ [0x5D]) (array items) := by
  intro expect stack rest hawaits _
  rw [List.append_assoc, List.append_assoc,
    (spells_singleton (u := 0x5B) rfl rfl).read (hawaits.parseStep nofun)]
  cases h with
  | nil =>
    exact (spells_singleton (u := 0x5D) rfl rfl).read rfl rest
  | cons hfirst hrest =>
    exact read_items hcomma (.cons hfirst hrest) (List.cons_ne_nil _ _) (.firstItem stack) rest

theorem readsMember {nameText name valueText : JsString} (hname : Spells nameText (.string name))
    (hcolon : Spells colon .colon) (hvalue : ReadsAs valueText v) :
    ReadsMember (nameText ++ colon ++ valueText) (name, v) := by
  intro stack members rest hrest
  rw [List.append_assoc, List.append_assoc, hname.read rfl, hcolon.read rfl,
    hvalue _ _ _ (.value _) hrest]

theorem read_members {texts : List JsString} {members : List (JsString × Json)}
    (hcomma : Spells comma .comma) (h : List.Forall₂ ReadsMember texts members)
    (hne : members ≠ []) (stack : List Frame) (read' : List (JsString × Json)) (rest : JsString) :
    read (.name stack read') (comma.intercalate texts ++ 0x7D :: rest) =
      read (.close stack (object (read'.reverse ++ members))) rest := by
  induction h generalizing read' with
  | nil => exact absurd rfl hne
  | @cons text m texts members hfirst hrest ih =>
    cases hrest with
    | nil =>
      rw [List.intercalate_singleton, hfirst _ _ _ (delimits_cons rfl _), ← List.reverse_cons]
      exact (spells_singleton (u := 0x7D) rfl rfl).read rfl rest
    | cons hsecond hrest =>
      rw [List.intercalate_cons_cons, List.append_assoc, List.append_assoc,
        hfirst _ _ _ (hcomma.delimits _), hcomma.read rfl, ih (List.cons_ne_nil _ _),
        List.reverse_cons, List.append_assoc]
      rfl

theorem readsAs_object {texts : List JsString} {members : List (JsString × Json)}
    (hcomma : Spells comma .comma) (h : List.Forall₂ ReadsMember texts members) :
    ReadsAs ([0x7B] ++ comma.intercalate texts ++ [0x7D]) (object members) := by
  intro expect stack rest hawaits _
  rw [List.append_assoc, List.append_assoc,
    (spells_singleton (u := 0x7B) rfl rfl).read (hawaits.parseStep nofun)]
  cases h with
  | nil =>
    exact (spells_singleton (u := 0x7D) rfl rfl).read rfl rest
  | cons hfirst hrest =>
    exact read_members hcomma (.cons hfirst hrest) (List.cons_ne_nil _ _) stack [] rest

/-! ## Integers -/

/-- There is no zero in front of the digits of a number. -/
theorem eq_zero_of_head?_decimal {n : ℕ} (h : (JsNumber.decimal n).head? = some 0x30) : n = 0 := by
  have hdigits : ∀ d < 10, JsNumber.digitUnit d = 0x30 → d = 0 := by decide
  have hpos : 0 < n → (JsNumber.decimal n).head? ≠ some 0x30 := by
    clear h
    induction n using JsNumber.induction_decimal with
    | hdigit n hn =>
      intro hpos hhead
      rw [JsNumber.decimal_of_lt hn, List.head?_cons] at hhead
      exact hpos.ne' (hdigits n hn (Option.some.inj hhead))
    | hconcat n d hn hd ih =>
      intro _ hhead
      rw [JsNumber.decimal_concat hn hd,
        List.head?_append_of_ne_nil _ (JsNumber.decimal_ne_nil n)] at hhead
      exact ih hn hhead
  by_contra hne
  exact hpos (Nat.pos_of_ne_zero hne) h

theorem numberOf_decimal (n : ℕ) : numberOf (JsNumber.decimal n) = some (JsNumber.round n) := by
  have hdigit : ∀ u ∈ JsNumber.decimal n, isDigit u = true :=
    fun u hu ↦ JsNumber.isDigit_of_mem_decimal hu
  have hsign : (JsNumber.decimal n).head? ≠ some 0x2D := by
    intro hhead
    have hminus := hdigit _ (List.mem_of_head? hhead)
    cases hminus
  have hzero : ¬ ((JsNumber.decimal n).head? = some 0x30 ∧ JsNumber.decimal n ≠ [0x30]) := by
    rintro ⟨hhead, hne⟩
    obtain rfl := eq_zero_of_head?_decimal hhead
    exact hne rfl
  have hvalue : digitsValue (JsNumber.decimal n) = n := JsNumber.digitsValue_decimal n
  rw [numberOf]
  dsimp only
  rw [if_neg hsign, List.takeWhile_eq_self_iff.mpr hdigit, List.dropWhile_eq_nil_iff.mpr hdigit,
    if_neg, List.head?_nil, if_neg (by decide), if_neg (by decide), exponentOf, Option.map_some,
    List.append_nil, hvalue, if_neg hsign]
  · simp [JsNumber.scale]
  · rintro (hnil | hzero' | ⟨hpointed, -⟩)
    · exact JsNumber.decimal_ne_nil n hnil
    · exact hzero hzero'
    · cases hpointed

theorem all_isWordUnit_decimal (n : ℕ) : (JsNumber.decimal n).all isWordUnit = true := by
  rw [List.all_eq_true]
  intro u hu
  have hdigit : isDigit u = true := JsNumber.isDigit_of_mem_decimal hu
  rw [isWordUnit, hdigit]
  rfl

theorem scalarOf_decimal (n : ℕ) :
    scalarOf (JsNumber.decimal n) = some (number (JsNumber.round n)) := by
  have hne : ∀ w : String, ((lit w).all fun u ↦ !isDigit u) = true →
      JsNumber.decimal n ≠ lit w := by
    intro w hw heq
    obtain ⟨u, hu⟩ := List.exists_mem_of_ne_nil _ (JsNumber.decimal_ne_nil n)
    have hdigit : isDigit u = true := JsNumber.isDigit_of_mem_decimal hu
    have hall := List.all_eq_true.mp hw u (heq ▸ hu)
    rw [hdigit] at hall
    cases hall
  rw [scalarOf, if_neg (hne _ (by decide)), if_neg (hne _ (by decide)), if_neg (hne _ (by decide)),
    numberOf_decimal, Option.map_some]

theorem readsAs_decimal (n : ℕ) : ReadsAs (JsNumber.decimal n) (number (JsNumber.round n)) :=
  readsAs_word (JsNumber.decimal_ne_nil n) (all_isWordUnit_decimal n) (scalarOf_decimal n)

/-- An integer that is a double is read back, up to twenty digits. -/
theorem readable_natCast {n : ℕ} (hround : JsNumber.round (n : ℚ) = .finite n)
    (hn : n < 10 ^ 20) : Readable (.finite n) := by
  obtain ⟨m, hm, hread⟩ := JsNumber.exists_toString_natCast hround hn
  constructor
  · rw [stringifyNumber, hm]
    exact JsNumber.decimal_ne_nil m
  · rw [stringifyNumber, hm]
    exact all_isWordUnit_decimal m
  · rw [stringifyNumber, hm, scalarOf_decimal, hread]

/-- What an integer below `2⁶³` is rounded to. -/
theorem exists_round_natCast {n : ℕ} (hn : n < 2 ^ 63) :
    ∃ k ≤ 2 ^ 63, JsNumber.round (n : ℚ) = .finite (k : ℕ) := by
  rcases Nat.eq_zero_or_pos n with rfl | hpos
  · exact ⟨0, by norm_num, rfl⟩
  · obtain ⟨m, hm, hle⟩ := JsNumber.exists_roundHalfEven (n : ℚ) (Nat.cast_ne_zero.mpr hpos.ne')
    rw [Nat.abs_cast] at hm
    have hunit : JsNumber.unitExponent (n : ℚ) ≤ 10 := by
      have hlog : Nat.log 2 n < 63 := Nat.log_lt_of_lt_pow hpos.ne' hn
      rw [JsNumber.unitExponent_natCast hpos]
      omega
    have hbound : (m : ℚ) * 2 ^ JsNumber.unitExponent (n : ℚ) ≤ 2 ^ 63 := by
      calc (m : ℚ) * 2 ^ JsNumber.unitExponent (n : ℚ) ≤ 2 ^ 53 * 2 ^ (10 : ℤ) := by
            refine mul_le_mul (by exact_mod_cast hle) ?_ (zpow_nonneg (by norm_num) _) (by norm_num)
            exact zpow_le_zpow_right₀ (by norm_num) hunit
        _ = 2 ^ 63 := by norm_num
    have hround : JsNumber.round (n : ℚ) =
        .finite ((m : ℚ) * 2 ^ JsNumber.unitExponent (n : ℚ)) := by
      have hlt : (2 : ℚ) ^ 63 < 2 ^ 1024 := pow_lt_pow_right₀ (by norm_num) (by norm_num)
      refine (JsNumber.round_natCast_eq_finite hpos).mpr ⟨?_, hbound.trans_lt hlt⟩
      rw [hm, Int.cast_natCast]
    obtain ⟨k, hk⟩ := JsNumber.exists_natCast_of_round hround
    rw [hk] at hround hbound
    exact ⟨k, by exact_mod_cast hbound, hround⟩

/-- **An integer below `2⁶³` is read back** as what it is rounded to. -/
theorem readable_round {n : ℕ} (hn : n < 2 ^ 63) : Readable (JsNumber.round n) := by
  obtain ⟨k, hk, hround⟩ := exists_round_natCast hn
  rw [hround]
  exact readable_natCast (JsNumber.round_round hround) (hk.trans_lt (by norm_num))

/-! ## Reading what was written -/

mutual

theorem readsAs_stringify : ∀ v : Json, v.AllNumbers Readable → ReadsAs (stringify v) v
  | null, _ => readsAs_word (by decide) (by decide) rfl
  | bool true, _ => readsAs_word (by decide) (by decide) rfl
  | bool false, _ => readsAs_word (by decide) (by decide) rfl
  | number n, h => by
    rw [stringify]
    exact readsAs_stringifyNumber (h n .number)
  | string s, _ => by
    rw [stringify]
    exact (spells_quote s).readsAs
  | array items, h => by
    rw [stringify]
    exact readsAs_array spells_comma (forall₂_stringifyItems items (allNumbers_array.mp h))
  | object members, h => by
    rw [stringify]
    exact readsAs_object spells_comma (forall₂_stringifyMembers members (allNumbers_object.mp h))

theorem forall₂_stringifyItems : ∀ items : List Json, (∀ v ∈ items, v.AllNumbers Readable) →
    List.Forall₂ ReadsAs (stringifyItems items) items
  | [], _ => .nil
  | v :: items, h => by
    rw [stringifyItems]
    exact .cons (readsAs_stringify v (h v List.mem_cons_self))
      (forall₂_stringifyItems items fun w hw ↦ h w (List.mem_cons_of_mem _ hw))

theorem forall₂_stringifyMembers : ∀ members : List (JsString × Json),
    (∀ m ∈ members, m.2.AllNumbers Readable) →
    List.Forall₂ ReadsMember (stringifyMembers members) members
  | [], _ => .nil
  | (name, v) :: members, h => by
    rw [stringifyMembers]
    exact .cons (readsMember (spells_quote name) spells_colon
        (readsAs_stringify v (h (name, v) List.mem_cons_self)))
      (forall₂_stringifyMembers members fun m hm ↦ h m (List.mem_cons_of_mem _ hm))

end

/-- **Reading what was written.** -/
theorem parse_stringify {v : Json} (h : v.AllNumbers Readable) : parse (stringify v) = some v :=
  (readsAs_stringify v h).parse

end Json
