import Mathlib.Data.Nat.Log
import Mathlib.Data.Rat.Floor
import PostgresChat.Js.Text

/-!
# Numbers of the JavaScript runtime

A JavaScript number is a double. `JsNumber` keeps a finite double as the rational it denotes, which
loses only the sign of zero, and nothing here depends on that sign. Reading a decimal literal rounds
the exact rational to the nearest double (`round`, ties to even), so a literal can become infinite;
printing chooses the shortest decimal that reads back as the same double (`shortest`), so an integer
from `2⁵³` on may print as a different integer, and from `10²¹` on it prints with an exponent.

Both directions are needed because numbers cross two borders as text: they arrive in JSON and leave
as parameters of SQL queries.
-/

/-- A JavaScript number, up to the sign of zero. -/
inductive JsNumber where
  | nan
  | infinity (negative : Bool)
  | finite (value : ℚ)
  deriving DecidableEq

namespace JsNumber

/-! ## Operators -/

/-- `a < b`. -/
def lt : JsNumber → JsNumber → Bool
  | finite a, finite b => decide (a < b)
  | infinity true, finite _ | infinity true, infinity false | finite _, infinity false => true
  | _, _ => false

/-- `a || b`. -/
def orElse (a b : JsNumber) : JsNumber := if a = nan ∨ a = finite 0 then b else a

/-- `Math.max(a, b)`. -/
def mathMax (a b : JsNumber) : JsNumber :=
  if a = nan ∨ b = nan then nan else if a.lt b then b else a

/-- `Math.min(a, b)`. -/
def mathMin (a b : JsNumber) : JsNumber :=
  if a = nan ∨ b = nan then nan else if b.lt a then b else a

/-! ## Reading -/

/-- `base ^ e` for an integer exponent. -/
def scale (base : ℕ) (e : ℤ) : ℚ :=
  if 0 ≤ e then (base : ℚ) ^ e.toNat else 1 / (base : ℚ) ^ (-e).toNat

/-- The exponent `e` with `base ^ e ≤ q < base ^ (e + 1)`, for `0 < q`. The two logarithms bracket
it within one. -/
def magnitude (base : ℕ) (q : ℚ) : ℤ :=
  let e : ℤ := Nat.log base q.num.toNat - Nat.log base q.den
  if scale base e ≤ q then e else e - 1

/-- The integer nearest to `q`, the even one of two. -/
def roundHalfEven (q : ℚ) : ℤ :=
  let r := q - ⌊q⌋
  if r < 1 / 2 then ⌊q⌋
  else if 1 / 2 < r then ⌊q⌋ + 1
  else if ⌊q⌋ % 2 = 0 then ⌊q⌋ else ⌊q⌋ + 1

/-- The double nearest to `q`. The least exponent of a unit in the last place is `-1074`, and a
magnitude that rounds to `2¹⁰²⁴` is infinite. -/
def round (q : ℚ) : JsNumber :=
  if q = 0 then .finite 0
  else
    let unit := scale 2 (max (magnitude 2 |q| - 52) (-1074))
    let rounded := roundHalfEven (|q| / unit) * unit
    if 2 ^ 1024 ≤ rounded then .infinity (q < 0)
    else .finite (if q < 0 then -rounded else rounded)

/-! ## Printing -/

/-- The decimal digits of a natural number. -/
def decimal (n : ℕ) : JsString := (Nat.toDigits 10 n).map fun c ↦ c.toNat.toUInt16

/-- The integers next to `q`, the nearer one first. -/
def neighbours (q : ℚ) : List ℕ :=
  let s := (roundHalfEven q).toNat
  [s, if s ≤ q then s + 1 else s - 1]

/-- The shortest decimal `s * 10 ^ (n - k)` that rounds to `q`, as `(s, k, n)`, the nearest one of
its `k` digits. `k` is tried upwards; just above a power of two the nearest decimal of `k` digits
may miss `q` from below when the next one above does not. `fuel` digits remain to be tried, and
seventeen always suffice. -/
def shortestFrom (q : ℚ) (k : ℕ) : ℕ → ℕ × ℕ × ℤ
  | 0 => (roundHalfEven q |>.toNat, k, k)
  | fuel + 1 =>
    let n := magnitude 10 q + 1
    let found := (neighbours (q / scale 10 (n - k))).find? fun s : ℕ ↦
      round (s * scale 10 (n - k)) = .finite q
    match found with
    | some s => if s = 10 ^ k then (1, 1, n + 1) else (s, k, n)
    | none => shortestFrom q (k + 1) fuel

/-- The digits chosen for a positive finite number. -/
def shortest (q : ℚ) : ℕ × ℕ × ℤ := shortestFrom q 1 17

/-- `Number::toString` for a positive finite number. -/
def positiveToString (q : ℚ) : JsString :=
  let (s, k, n) := shortest q
  let digits := decimal s
  if k ≤ n ∧ n ≤ 21 then digits ++ List.replicate (n - k).toNat 0x30
  else if 0 < n ∧ n ≤ 21 then digits.take n.toNat ++ JsString.lit "." ++ digits.drop n.toNat
  else if -6 < n ∧ n ≤ 0 then JsString.lit "0." ++ List.replicate (-n).toNat 0x30 ++ digits
  else
    let exponent := JsString.lit (if 0 < n then "e+" else "e-") ++ decimal (n - 1).natAbs
    if k = 1 then digits ++ exponent
    else digits.take 1 ++ JsString.lit "." ++ digits.drop 1 ++ exponent

/-- `String(number)`. -/
def toString : JsNumber → JsString
  | nan => JsString.lit "NaN"
  | infinity negative => JsString.lit (if negative then "-Infinity" else "Infinity")
  | finite q =>
    if q = 0 then JsString.lit "0"
    else if q < 0 then JsString.lit "-" ++ positiveToString (-q) else positiveToString q

end JsNumber
