namespace ServiceGraph

/-- The number `± digits · 10 ^ exponent`. -/
@[ext] structure Decimal where
  negative : Bool
  digits : Nat
  exponent : Int
  deriving DecidableEq

namespace Decimal

/-- The text of a natural number in base ten. -/
def natText (n : Nat) : List Char := Nat.toDigits 10 n

def intText (n : Int) : List Char :=
  if n < 0 then '-' :: natText n.natAbs else natText n.natAbs

end Decimal

end ServiceGraph
