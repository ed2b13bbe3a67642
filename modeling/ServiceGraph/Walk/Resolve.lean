import ServiceGraph.Settings
import ServiceGraph.Walk.Search
import ServiceGraph.Walk.Stack

namespace ServiceGraph

/-- A program of a service under some settings. -/
structure Analysis where
  program : Program
  settings : Settings
  service : String

/-- The longest chain of values that is followed. -/
def maxDepth : Nat := 33

/-- The function whose calls format text. -/
def formatter : String := "fmt.Sprintf"

namespace Function

/-- The values stored into an array at constant positions, in program order. -/
def elementStores (f : Function) (array : ValueId) : List (Int × ValueId) :=
  f.values.filterMap fun store =>
    match store.kind with
    | .store addr val => do
      match (← f.value? addr).kind with
      | .indexAddr x index =>
        if x = array then
          match (← f.value? index).kind with
          | .const (.int i) => some (i.toInt, val)
          | _ => none
        else none
      | _ => none
    | _ => none

/-- The elements of a list of arguments: those stored into the array behind a slice, which must be
stored once at each of the positions from zero on. The slice `nil` has no elements. -/
def variadic? (f : Function) (slice : ValueId) : Option (List ValueId) := do
  match (← f.value? slice).kind with
  | .slice array =>
    let elements := (f.elementStores array).mergeSort fun a b => a.1 ≤ b.1
    if elements.map (·.1) = (List.range elements.length).map Int.ofNat then
      some (elements.map (·.2))
    else none
  | .const .nil => some []
  | _ => none

/-- The operand of a conversion or of boxing in an interface. -/
def unbox? (f : Function) (id : ValueId) : Option ValueId := do
  match (← f.value? id).kind with
  | .makeInterface x | .convert x => some x
  | _ => none

/-- The value behind all conversions and boxing. There is none if they lead back to themselves: the
search then goes round without an end. -/
def underlying (f : Function) (id : ValueId) : Option ValueId :=
  match f.unbox? id with
  | some x => f |>.underlying x
  | none => some id
partial_fixpoint

end Function

/-- Fills in a format: `%s` and `%d` take the next operand, `%%` is a percent sign, and nothing else
may follow a percent sign. Operands that are left over do not matter. -/
def expandFormat (operand : Char → ValueId → Search String) :
    List Char → List ValueId → Search (List Char)
  | [], _ => .found []
  | '%' :: '%' :: rest, operands => do return '%' :: (← expandFormat operand rest operands)
  | '%' :: verb :: rest, operands =>
    if verb = 's' ∨ verb = 'd' then
      match operands with
      | [] => .unknown
      | o :: operands => do
        let text ← operand verb o
        return text.toList ++ (← expandFormat operand rest operands)
    else .unknown
  | ['%'], _ => .unknown
  | c :: rest, operands => do return c :: (← expandFormat operand rest operands)

namespace Analysis

/-- The text of an operand. With `%d` an integer constant is written in decimal. -/
def operandText (inner : ValueId → Search String) (f : Function) (verb : Char) (id : ValueId) :
    Search String :=
  match f.underlying id with
  | none => .endless
  | some id =>
    match f.value? id with
    | some ⟨_, _, _, .const (.int n)⟩ =>
      if verb = 'd' then .found (String.ofList (Decimal.intText n.toInt)) else inner id
    | _ => inner id

/-- The text of a call to the formatter, where `inner` gives the text of a value. -/
def formatText (inner : ValueId → Search String) (f : Function) (args : List ValueId) :
    Search String := do
  let format ← inner (← .ofOption args.head?)
  let operands ← match args[1]? with
    | some slice => .ofOption (f.variadic? slice)
    | none => .found []
  return String.ofList (← expandFormat (operandText inner f) format.toList operands)

/-- The text of a call: the value of an environment variable, or formatted text. -/
def callText (a : Analysis) (inner : ValueId → Search String) (f : Function) (call : Call) :
    Search String :=
  match call.callee with
  | .static func => do
    let signature := (← .ofOption (a.program.function? func)).signature
    match a.settings.substitutes.index? signature with
    | some index =>
      let name ← inner (← .ofOption call.args[index.toNat]?)
      .ofOption (a.settings.variableValue? a.service name)
    | none => if signature = formatter then formatText inner f call.args else .unknown
  | _ => .unknown

/-- One step towards the text of a value: `inner` gives the texts of the values it is made of. -/
def textStep (a : Analysis) (inner : Frame → ValueId → Search String) (frame : Frame)
    (id : ValueId) : Search String := do
  match (← .ofOption (frame.function.value? id)).kind with
  | .const (.string s) => .found s
  | .parameter index =>
    let b ← .ofOption (frame.param? index)
    inner (frame.atLevel b.level) b.value
  | .freeVar index =>
    let b ← .ofOption (frame.freeVar? index)
    inner (frame.atLevel b.level) b.value
  | .binary .add x y =>
    let left ← inner frame x
    let right ← inner frame y
    .found (left ++ right)
  | .call call => a.callText (inner frame) frame.function call
  | .phi edges => .agreed (inner frame) edges
  | .makeInterface x | .convert x => inner frame x
  | _ => .unknown

/-- The text of a value, following chains of at most `depth` values. -/
def textWithin (a : Analysis) : (depth : Nat) → Frame → ValueId → Search String
  | 0, _, _ => .unknown
  | depth + 1, frame, id => a.textStep (a.textWithin depth) frame id

/-- The text that a value stands for, if it can be worked out. -/
def resolve (a : Analysis) (frame : Frame) (id : ValueId) : Search String :=
  a.textWithin maxDepth frame id

end Analysis

end ServiceGraph
