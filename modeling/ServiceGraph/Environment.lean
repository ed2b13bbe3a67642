import ServiceGraph.Dict
import ServiceGraph.Number.Decimal
import ServiceGraph.Text.Blank

namespace ServiceGraph

/-- Values by variable, for each service. -/
abbrev Environment := Dict String (Dict String String)

namespace Environment

def get? (env : Environment) (service name : String) : Option String := do
  (← Dict.get? env service).get? name

def set (env : Environment) (service name value : String) : Environment :=
  Dict.update env service .empty (·.insert name value)

/-- What a line of an environment file says. -/
inductive Line where
  | nothing
  | assignment (service name value : String)
  | malformed
  deriving DecidableEq

def isNameChar (c : Char) : Bool := c.isAlphanum || c == '_' || c == '-'

def isName (cs : List Char) : Bool := !cs.isEmpty && cs.all isNameChar

def readAssignment (line : List Char) : Line :=
  match Text.splitAtFirst? '=' line with
  | none => .malformed
  | some (key, value) =>
    match Text.splitAtFirst? '.' (Text.trim key) with
    | none => .malformed
    | some (service, name) =>
      if isName service && isName name then
        .assignment (String.ofList service) (String.ofList name)
          (String.ofList (Text.trim value))
      else .malformed

def readLine (line : List Char) : Line :=
  match Text.trim line with
  | [] => .nothing
  | '#' :: _ => .nothing
  | c :: cs => readAssignment (c :: cs)

/-- A line that is neither blank nor an assignment; lines are counted from one. -/
structure SyntaxError where
  line : Nat
  deriving DecidableEq

def SyntaxError.message (e : SyntaxError) : String :=
  "the file cannot be parsed (line " ++ String.ofList (Decimal.natText e.line) ++ ")"

/-- Reads lines from number `n` on, setting variables on top of `env`. -/
def readLines (n : Nat) (env : Environment) : List (List Char) → Except SyntaxError Environment
  | [] => .ok env
  | line :: rest =>
    match readLine line with
    | .nothing => readLines (n + 1) env rest
    | .assignment service name value => readLines (n + 1) (env.set service name value) rest
    | .malformed => .error ⟨n⟩

/-- The variables that a text sets. The first malformed line is reported. -/
def parse (text : List Char) : Except SyntaxError Environment :=
  readLines 1 .empty (Text.lines text)

end Environment

end ServiceGraph
