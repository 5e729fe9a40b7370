import PostgresChat.Js.Number

/-!
# `JSON.parse`

The text is read unit by unit into tokens, and the tokens are read one by one against a stack of the
arrays and objects still open. Both readers recurse on their input, so `parse` is total and needs no
fuel: a malformed text is exactly one on which some step has no next state, or which ends before the
outermost value does. `none` is the `SyntaxError` that `JSON.parse` throws.

Members of an object are kept in the order of the text; a repeated name denotes its last value, so
`member` looks from the end.
-/

/-- A value `JSON.parse` can return. -/
inductive Json where
  | null
  | bool (value : Bool)
  | number (value : JsNumber)
  | string (value : JsString)
  | array (items : List Json)
  | object (members : List (JsString × Json))

namespace Json

/-- `value[name]` for a value that is neither `null` nor `undefined`; `none` is `undefined`. Only an
object has members of its own here: no name the source reads lies on a prototype. -/
def member (name : JsString) : Json → Option Json
  | object members => (members.reverse.find? fun m ↦ m.1 = name).map Prod.snd
  | _ => none

/-! ## Tokens -/

/-- A token of a JSON text. -/
inductive Token where
  | lbrace | rbrace | lbracket | rbracket | comma | colon
  | string (value : JsString)
  | scalar (value : Json)

/-- What the tokenizer is in the middle of; texts read so far are reversed. -/
inductive Lexeme where
  | none
  | string (read : JsString)
  | escape (read : JsString)
  | unicode (read : JsString) (digits : ℕ) (value : ℕ)
  | word (read : JsString)

def isDigit (u : UInt16) : Bool := 0x30 ≤ u.toNat && u.toNat ≤ 0x39

/-- The value of a hexadecimal digit. -/
def hexDigit (u : UInt16) : Option ℕ :=
  let n := u.toNat
  if 0x30 ≤ n ∧ n ≤ 0x39 then some (n - 0x30)
  else if 0x41 ≤ n ∧ n ≤ 0x46 then some (n - 0x41 + 10)
  else if 0x61 ≤ n ∧ n ≤ 0x66 then some (n - 0x61 + 10)
  else Option.none

/-- The units numbers, `true`, `false` and `null` are made of. -/
def isWordUnit (u : UInt16) : Bool :=
  isDigit u || (0x61 ≤ u.toNat && u.toNat ≤ 0x7A) || u == 0x45 || u == 0x2B || u == 0x2D ||
    u == 0x2E

def digitsValue (digits : JsString) : ℕ := digits.foldl (fun n u ↦ 10 * n + (u.toNat - 0x30)) 0

/-- The exponent part of a number, if `s` is nothing else. -/
def exponentOf (s : JsString) : Option ℤ :=
  match s with
  | [] => some 0
  | e :: s =>
    let digits := if s.head? = some 0x2B ∨ s.head? = some 0x2D then s.tail else s
    if (e = 0x65 ∨ e = 0x45) ∧ digits ≠ [] ∧ digits.all isDigit then
      some (if s.head? = some 0x2D then -digitsValue digits else digitsValue digits)
    else Option.none

/-- The number written `s`, if `s` is one in JSON's grammar: no leading zeros, and a digit after
every point. -/
def numberOf (s : JsString) : Option JsNumber :=
  let negative := s.head? = some 0x2D
  let s := if negative then s.tail else s
  let whole := s.takeWhile isDigit
  let rest := s.dropWhile isDigit
  let pointed := rest.head? = some 0x2E
  let fraction := if pointed then rest.tail.takeWhile isDigit else []
  let rest := if pointed then rest.tail.dropWhile isDigit else rest
  if whole = [] ∨ (whole.head? = some 0x30 ∧ whole ≠ [0x30]) ∨ (pointed ∧ fraction = []) then
    Option.none
  else (exponentOf rest).map fun e ↦
    let q := digitsValue (whole ++ fraction) * JsNumber.scale 10 (e - fraction.length)
    JsNumber.round (if negative then -q else q)

/-- The value a word denotes. -/
def scalarOf (s : JsString) : Option Json :=
  if s = JsString.lit "null" then some null
  else if s = JsString.lit "true" then some (bool true)
  else if s = JsString.lit "false" then some (bool false)
  else (numberOf s).map number

/-- The unit an escape stands for. -/
def escapeOf (u : UInt16) : Option UInt16 :=
  if u = 0x22 ∨ u = 0x5C ∨ u = 0x2F then some u
  else if u = 0x62 then some 0x08
  else if u = 0x66 then some 0x0C
  else if u = 0x6E then some 0x0A
  else if u = 0x72 then some 0x0D
  else if u = 0x74 then some 0x09
  else Option.none

/-- A unit read between two tokens. -/
def beginLexeme (u : UInt16) : Option (List Token × Lexeme) :=
  if u = 0x20 ∨ u = 0x09 ∨ u = 0x0A ∨ u = 0x0D then some ([], .none)
  else if u = 0x7B then some ([.lbrace], .none)
  else if u = 0x7D then some ([.rbrace], .none)
  else if u = 0x5B then some ([.lbracket], .none)
  else if u = 0x5D then some ([.rbracket], .none)
  else if u = 0x2C then some ([.comma], .none)
  else if u = 0x3A then some ([.colon], .none)
  else if u = 0x22 then some ([], .string [])
  else if isWordUnit u then some ([], .word [u])
  else Option.none

/-- One unit of the text: the tokens it completes and what is being read after it. -/
def lexStep : Lexeme → UInt16 → Option (List Token × Lexeme)
  | .none, u => beginLexeme u
  | .word read, u =>
    if isWordUnit u then some ([], .word (u :: read))
    else do
      let value ← scalarOf read.reverse
      let (tokens, lexeme) ← beginLexeme u
      return (.scalar value :: tokens, lexeme)
  | .string read, u =>
    if u = 0x22 then some ([.string read.reverse], .none)
    else if u = 0x5C then some ([], .escape read)
    else if u.toNat < 0x20 then Option.none
    else some ([], .string (u :: read))
  | .escape read, u =>
    if u = 0x75 then some ([], .unicode read 0 0)
    else (escapeOf u).map fun v ↦ ([], .string (v :: read))
  | .unicode read digits value, u => (hexDigit u).map fun d ↦
    if digits = 3 then ([], .string ((16 * value + d).toUInt16 :: read))
    else ([], .unicode read (digits + 1) (16 * value + d))

/-- The tokens of the rest of the text. -/
def lexFrom : Lexeme → JsString → Option (List Token)
  | .none, [] => some []
  | .word read, [] => (scalarOf read.reverse).map fun value ↦ [.scalar value]
  | _, [] => Option.none
  | lexeme, u :: text => do
    let (tokens, lexeme) ← lexStep lexeme u
    return tokens ++ (← lexFrom lexeme text)

/-! ## Values -/

/-- An array or object still open, with what it contains so far, latest first. -/
inductive Frame where
  | array (items : List Json)
  | object (members : List (JsString × Json)) (name : JsString)

/-- What is expected next, inside the open arrays and objects of `stack`. -/
inductive Expect where
  | value (stack : List Frame)
  | firstItem (stack : List Frame)
  | name (stack : List Frame) (members : List (JsString × Json))
  | colon (stack : List Frame) (members : List (JsString × Json)) (name : JsString)
  | close (stack : List Frame) (value : Json)

/-- A token where a value is expected. -/
def beginValue (stack : List Frame) : Token → Option Expect
  | .scalar value => some (.close stack value)
  | .string value => some (.close stack (string value))
  | .lbracket => some (.firstItem stack)
  | .lbrace => some (.name stack [])
  | _ => Option.none

/-- One token. A brace that closes an empty object is read where its first name could stand. -/
def parseStep : Expect → Token → Option Expect
  | .value stack, t => beginValue stack t
  | .firstItem stack, .rbracket => some (.close stack (array []))
  | .firstItem stack, t => beginValue (.array [] :: stack) t
  | .name stack members, .string name => some (.colon stack members name)
  | .name stack [], .rbrace => some (.close stack (object []))
  | .name _ _, _ => Option.none
  | .colon stack members name, .colon => some (.value (.object members name :: stack))
  | .colon _ _ _, _ => Option.none
  | .close (.array items :: stack) v, .comma => some (.value (.array (v :: items) :: stack))
  | .close (.array items :: stack) v, .rbracket => some (.close stack (array (v :: items).reverse))
  | .close (.object members name :: stack) v, .comma => some (.name stack ((name, v) :: members))
  | .close (.object members name :: stack) v, .rbrace =>
    some (.close stack (object ((name, v) :: members).reverse))
  | .close _ _, _ => Option.none

/-- The value the rest of the tokens complete. -/
def parseFrom : Expect → List Token → Option Json
  | .close [] v, [] => some v
  | _, [] => Option.none
  | expect, t :: tokens => (parseStep expect t).bind fun expect ↦ parseFrom expect tokens

/-- `JSON.parse(text)`; `none` is a `SyntaxError`. -/
def parse (text : JsString) : Option Json := (lexFrom .none text).bind (parseFrom (.value []))

end Json
