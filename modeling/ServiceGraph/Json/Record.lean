import ServiceGraph.Json.Reader

namespace ServiceGraph.Json

def string? : Json → Option String
  | str s => some s
  | _ => none

def bool? : Json → Option Bool
  | bool b => some b
  | _ => none

def int? : Json → Option Int
  | num (.int n) => some n
  | _ => none

/-- A natural number below `bound`. -/
def natBelow? (bound : Nat) (j : Json) : Option Nat := do
  let n ← j.int?
  if 0 ≤ n ∧ n < bound then some n.toNat else none

def uint32? (j : Json) : Option UInt32 := (j.natBelow? UInt32.size).map UInt32.ofNat

def uint64? (j : Json) : Option UInt64 := (j.natBelow? UInt64.size).map UInt64.ofNat

def int64? (j : Json) : Option Int64 := do
  let n ← j.int?
  if Int64.minValue.toInt ≤ n ∧ n ≤ Int64.maxValue.toInt then some (Int64.ofInt n) else none

def binary64? : Json → Option Binary64
  | num n => n.toBinary64?
  | _ => none

/-- A list of values that all can be read. -/
def list? {α : Type} (read : Json → Option α) : Json → Option (List α)
  | arr items => items.mapM read
  | _ => none

/-- A value that may be `null`. -/
def nullable? {α : Type} (read : Json → Option α) : Json → Option (Option α)
  | null => some none
  | j => (read j).map some

/-- The member of a name, `none` inside when it is absent. A name must not be repeated. -/
def member? (members : List (String × Json)) (name : String) : Option (Option Json) :=
  match members.filter (·.1 == name) with
  | [] => some none
  | [m] => some (some m.2)
  | _ => none

/-- The fields of a record in declared order, those that are absent as `none`. Other members of an
object are passed over; an array must not be longer than the record. -/
def fields? (names : List String) : Json → Option (List (Option Json))
  | obj members => names.mapM (member? members)
  | arr items =>
    if items.length ≤ names.length then
      some (items.map some ++ List.replicate (names.length - items.length) none)
    else none
  | _ => none

/-- A field that has a value to fall back on when it is absent. -/
def orElse {α : Type} (default : α) (read : Json → Option α) : Option Json → Option α
  | none => some default
  | some j => read j

/-- The name of an alternative without content: a text, or an object whose only member has that name
and is empty in the sense of `isNothing`. -/
def alternative? (isNothing : Json → Bool) : Json → Option String
  | str s => some s
  | obj [(name, j)] => if isNothing j then some name else none
  | _ => none

/-- The name of an alternative, given as a text or by its place among all names. A place beyond them
stands for `beyond`. -/
def nameOrPlace? (names : List String) (beyond : Option String) : Json → Option String
  | str s => some s
  | j => do
    let n ← j.natBelow? UInt64.size
    names[n]? <|> beyond

def isNull : Json → Bool
  | null => true
  | _ => false

def isNullOrEmpty : Json → Bool
  | null => true
  | obj [] => true
  | _ => false

end ServiceGraph.Json
