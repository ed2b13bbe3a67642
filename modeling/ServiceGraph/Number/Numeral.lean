import ServiceGraph.Number.Binary64

namespace ServiceGraph

/-- The number `± whole.fraction · 10 ^ exponent`, where each part is made of decimal digits. -/
@[ext] structure Numeral where
  negative : Bool
  whole : List Char
  fraction : List Char
  exponent : Int
  deriving DecidableEq

namespace Numeral

def ofInt (n : Int) : Numeral := ⟨n < 0, Decimal.natText n.natAbs, [], 0⟩

/-- Positional from `10 ^ -5` up to `10 ^ 16`, with at least one digit on each side of the point,
and with one digit before the point and a power of ten otherwise. -/
def ofDecimal (d : Decimal) : Numeral :=
  let digits := Decimal.natText d.digits
  let size := digits.length + d.exponent
  if 0 ≤ d.exponent ∧ size ≤ 16 then
    ⟨d.negative, digits ++ List.replicate d.exponent.toNat '0', ['0'], 0⟩
  else if 0 < size ∧ size ≤ 16 then
    ⟨d.negative, digits.take size.toNat, digits.drop size.toNat, 0⟩
  else if -5 < size ∧ size ≤ 0 then
    ⟨d.negative, ['0'], List.replicate (-size).toNat '0' ++ digits, 0⟩
  else ⟨d.negative, digits.take 1, digits.drop 1, size - 1⟩

/-- The shortest numeral of a double. -/
def ofBinary64 (x : Binary64) : Numeral := ofDecimal x.toDecimal

/-- The text has a point or a power of ten, which integers have not. -/
def text (x : Numeral) : List Char :=
  let sign := if x.negative then ['-'] else []
  let power := 'e' :: Decimal.intText x.exponent
  if x.fraction.isEmpty then sign ++ x.whole ++ power
  else sign ++ x.whole ++ '.' :: x.fraction ++ if x.exponent = 0 then [] else power

def digitValue (c : Char) : Nat := c.toNat - '0'.toNat

/-- Appends digits to a number until one would make it too large for 64 bits. Gives the number and
the digits that are left. -/
def absorb (n : Nat) : List Char → Nat × List Char
  | [] => (n, [])
  | c :: rest =>
    let m := 10 * n + digitValue c
    if m < UInt64.size then absorb m rest else (n, c :: rest)

/-- The digits that count, as a number of 64 bits, and the power of ten that goes with it. Digits of
the whole part that are left out count in the power, and those after the point do not. -/
def significand (x : Numeral) : Nat × Int :=
  let (n, left) := absorb 0 x.whole
  let (m, ignored) := absorb n x.fraction
  let taken := x.fraction.length - ignored.length
  (m, x.exponent + left.length - taken)

/-- The double that a numeral stands for, or `none` when it is too large for one. -/
def toBinary64? (x : Numeral) : Option Binary64 := do
  let (n, power) := x.significand
  (← Binary64.nearest? x.negative ⟨n, 1⟩).scaleTen? power

end Numeral

end ServiceGraph
