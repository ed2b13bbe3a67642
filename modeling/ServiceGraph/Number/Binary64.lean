import ServiceGraph.Number.Decimal

namespace ServiceGraph

/-- The number `± mantissa · 2 ^ exponent`. Numbers made by `nearest?` have a mantissa below
`2 ^ 53` and an exponent from `-1074` to `971`. -/
@[ext] structure Binary64 where
  negative : Bool
  mantissa : Nat
  exponent : Int
  deriving DecidableEq

namespace Binary64

/-- A positive fraction of natural numbers. -/
structure Ratio where
  num : Nat
  den : Nat

namespace Ratio

/-- Multiplies by a power of `base`. -/
def scale (r : Ratio) (base : Nat) : Int → Ratio
  | .ofNat e => ⟨r.num * Nat.pow base e, r.den⟩
  | .negSucc e => ⟨r.num, r.den * Nat.pow base (e + 1)⟩

def le (a b : Ratio) : Bool := a.num * b.den ≤ b.num * a.den

def lt (a b : Ratio) : Bool := a.num * b.den < b.num * a.den

/-- The integer `k` with `base ^ k ≤ r < base ^ (k + 1)`. -/
def log (base : Nat) (r : Ratio) : Int :=
  let width (n : Nat) : Int := (Nat.toDigits base n).length
  let k := width r.num - width r.den
  if le (scale ⟨1, 1⟩ base k) r then k else k - 1

def mul (a b : Ratio) : Ratio := ⟨a.num * b.num, a.den * b.den⟩

def div (a b : Ratio) : Ratio := ⟨a.num * b.den, a.den * b.num⟩

def floor (r : Ratio) : Nat := r.num / r.den

/-- The nearest natural number; a half goes to the even neighbour. -/
def round (r : Ratio) : Nat :=
  let q := r.num / r.den
  let twice := 2 * (r.num % r.den)
  if twice < r.den then q
  else if r.den < twice then q + 1
  else if q % 2 = 0 then q else q + 1

/-- The distance of two fractions. -/
def dist (a b : Ratio) : Ratio :=
  ⟨(a.num * b.den - b.num * a.den) + (b.num * a.den - a.num * b.den), a.den * b.den⟩

end Ratio

def leastExponent : Int := -1074

def greatestExponent : Int := 971

def zero (negative : Bool) : Binary64 := ⟨negative, 0, leastExponent⟩

/-- The double nearest to a fraction, or `none` when that is too large. A half goes to the even
mantissa. -/
def nearest? (negative : Bool) (r : Ratio) : Option Binary64 :=
  if r.num = 0 then some (zero negative)
  else
    let exponent := max leastExponent (Ratio.log 2 r - 52)
    let mantissa := Ratio.round (Ratio.scale r 2 (-exponent))
    let (mantissa, exponent) :=
      if mantissa = Nat.pow 2 53 then (Nat.pow 2 52, exponent + 1) else (mantissa, exponent)
    if greatestExponent < exponent then none else some ⟨negative, mantissa, exponent⟩

/-- The value without its sign. -/
def value (x : Binary64) : Ratio := Ratio.scale ⟨x.mantissa, 1⟩ 2 x.exponent

/-- The exponent of the greatest power of ten that has a double next to it. -/
def greatestTenth : Nat := 308

/-- The value of the double nearest to a power of ten. -/
def tenPower (n : Nat) : Ratio :=
  let power : Ratio := ⟨Nat.pow 10 n, 1⟩
  ((nearest? false power).map value).getD power

/-- The rounded quotient by a power of ten. -/
def divTen (x : Binary64) (n : Nat) : Binary64 :=
  (nearest? x.negative (x.value.div (tenPower n))).getD x

/-- The product with a power of ten, or `none` when it is too large. A quotient takes two steps if
one power is not enough, and each of them rounds. Twice by the greatest power gives zero for all
numbers below `2 ^ 64`. -/
def scaleTen? (x : Binary64) : (exponent : Int) → Option Binary64
  | .ofNat n =>
    if n ≤ greatestTenth then nearest? x.negative (x.value.mul (tenPower n))
    else if x.mantissa = 0 then some x else none
  | .negSucc n =>
    let n := n + 1
    if n ≤ greatestTenth then some (x.divTen n)
    else if n ≤ 2 * greatestTenth then
      some ((x.divTen greatestTenth).divTen (n - greatestTenth))
    else some (zero x.negative)

/-- Whether a positive fraction rounds to `x`: it lies between the midpoints to the neighbours, and
on a midpoint only if the mantissa is even. -/
def roundsFrom (x : Binary64) (r : Ratio) : Bool :=
  let below :=
    if x.mantissa = Nat.pow 2 52 ∧ leastExponent < x.exponent then
      Ratio.scale ⟨4 * x.mantissa - 1, 4⟩ 2 x.exponent
    else Ratio.scale ⟨2 * x.mantissa - 1, 2⟩ 2 x.exponent
  let above := Ratio.scale ⟨2 * x.mantissa + 1, 2⟩ 2 x.exponent
  if x.mantissa % 2 = 0 then below.le r && r.le above else below.lt r && r.lt above

/-- The decimal of `count` digits next to `x` that rounds to `x`, if there is one. -/
def withDigits? (x : Binary64) (count : Nat) : Option Decimal :=
  let power := Ratio.log 10 x.value - count + 1
  let low := Ratio.floor (Ratio.scale x.value 10 (-power))
  let at_ (n : Nat) : Ratio := Ratio.scale ⟨n, 1⟩ 10 power
  let fits := [low, low + 1].filter fun n => x.roundsFrom (at_ n)
  match fits with
  | [a, b] =>
    let da := Ratio.dist (at_ a) x.value
    let db := Ratio.dist (at_ b) x.value
    let pick := if da.lt db then a else if db.lt da then b else if a % 2 = 0 then a else b
    some ⟨x.negative, pick, power⟩
  | [a] => some ⟨x.negative, a, power⟩
  | _ => none

/-- The decimal with the fewest digits that rounds to `x`; seventeen digits are always enough. -/
def toDecimal (x : Binary64) : Decimal :=
  if x.mantissa = 0 then ⟨x.negative, 0, 0⟩
  else ((List.range 17).findSome? fun i => x.withDigits? (i + 1)).getD ⟨x.negative, 0, 0⟩

end Binary64

end ServiceGraph
