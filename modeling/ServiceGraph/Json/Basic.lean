import ServiceGraph.Number.Numeral

namespace ServiceGraph

/-- A number as written: an integer without point and exponent, or any other numeral. The text `-0`
is the numeral zero with a sign. -/
inductive JsonNumber where
  | int (n : Int)
  | numeral (x : Numeral)
  deriving DecidableEq

inductive Json where
  | null
  | bool (b : Bool)
  | num (n : JsonNumber)
  | str (s : String)
  | arr (items : List Json)
  | obj (members : List (String × Json))
  /-- A string with an escape that is half of a surrogate pair or with bytes that are no character,
  or an object with such a name. It may stand where nothing is read. -/
  | unreadable

namespace Json

def ofNat (n : Nat) : Json := num (.int n)

def ofInt (n : Int) : Json := num (.int n)

end Json

/-- The double that a number stands for, if it is small enough for one. -/
def JsonNumber.toBinary64? : JsonNumber → Option Binary64
  | .int n => (Numeral.ofInt n).toBinary64?
  | .numeral x => x.toBinary64?

namespace Json

mutual

/-- Whether everything in a value can be read: every number stands for a double, every string is
text, and arrays and objects nest at most `depth` deep. -/
def readable (depth : Nat) : Json → Bool
  | null => true
  | bool _ => true
  | num n => n.toBinary64?.isSome
  | str _ => true
  | arr items => match depth with
    | 0 => false
    | depth + 1 => readableItems depth items
  | obj members => match depth with
    | 0 => false
    | depth + 1 => readableMembers depth members
  | unreadable => false

def readableItems (depth : Nat) : List Json → Bool
  | [] => true
  | j :: rest => readable depth j && readableItems depth rest

def readableMembers (depth : Nat) : List (String × Json) → Bool
  | [] => true
  | (_, j) :: rest => readable depth j && readableMembers depth rest

end

end Json

end ServiceGraph
