import ServiceGraph.Walk.Resolve

namespace ServiceGraph.Analysis

/-- The answer that `f` gives for every element, if there is an element and all answers agree. -/
def agreed? {α β : Type} [DecidableEq β] (f : α → Option β) : List α → Option β
  | [] => none
  | a :: rest => do
    let b ← f a
    if rest.all (fun a => f a = some b) then some b else none

/-- The answers for all elements, if every one has an answer and they agree with the first under
`same`. The first is taken. -/
def firstAgreed? {α β : Type} (same : β → β → Bool) (f : α → Option β) : List α → Option β
  | [] => none
  | a :: rest => do
    let b ← f a
    if rest.all (fun a => (f a).any (same b)) then some b else none

/-- One step towards the function of a value. A list of handlers stands for its first one. -/
def functionStep (inner : Frame → ValueId → Option Callable) (frame : Frame) (id : ValueId) :
    Option Callable := do
  match (← frame.function.value? id).kind with
  | .function func => some ⟨func, []⟩
  | .makeClosure func bindings => some ⟨func, bindings.map frame.bound⟩
  | .makeInterface x | .convert x => inner frame x
  | .parameter index =>
    let b ← frame.param? index
    inner (frame.atLevel b.level) b.value
  | .freeVar index =>
    let b ← frame.freeVar? index
    inner (frame.atLevel b.level) b.value
  | .slice _ =>
    let elements ← frame.function.variadic? id
    inner frame (← elements.head?)
  | .phi edges => firstAgreed? (fun b c => b.func == c.func) (inner frame) edges
  | _ => none

/-- The function of a value, following chains of at most `depth` values. -/
def functionWithin : (depth : Nat) → Frame → ValueId → Option Callable
  | 0, _, _ => none
  | depth + 1, frame, id => functionStep (functionWithin depth) frame id

def resolveFunction (frame : Frame) (id : ValueId) : Option Callable :=
  functionWithin maxDepth frame id

/-- One step towards the type behind a value. A value of a type with methods is its own. -/
def typeStep (a : Analysis) (inner : Frame → ValueId → Option String) (frame : Frame)
    (id : ValueId) : Option String := do
  let v ← frame.function.value? id
  match v.kind with
  | .makeInterface x => (frame.function.value? x).map (·.type)
  | .convert x => inner frame x
  | .parameter index =>
    let b ← frame.param? index
    inner (frame.atLevel b.level) b.value
  | .freeVar index =>
    let b ← frame.freeVar? index
    inner (frame.atLevel b.level) b.value
  | .phi edges => agreed? (inner frame) edges
  | _ => if a.program.methodSets.contains v.type then some v.type else none

/-- The type behind a value, following chains of at most `depth` values. -/
def typeWithin (a : Analysis) : (depth : Nat) → Frame → ValueId → Option String
  | 0, _, _ => none
  | depth + 1, frame, id => a.typeStep (a.typeWithin depth) frame id

def concreteType (a : Analysis) (frame : Frame) (id : ValueId) : Option String :=
  a.typeWithin maxDepth frame id

/-- A method of the type behind a value. -/
def resolveMethod (a : Analysis) (frame : Frame) (id : ValueId) (method : String) :
    Option Callable := do
  let type ← a.concreteType frame id
  return ⟨← a.program.method? type method, []⟩

/-- The function that a call enters. -/
def resolveCallee (a : Analysis) (frame : Frame) (call : Call) : Option Callable :=
  match call.callee with
  | .static func => some ⟨func, []⟩
  | .dynamic value => resolveFunction frame value
  | .invoke receiver method => a.resolveMethod frame receiver method

/-- The function of a handler: a function value, or the method `ServeHTTP` of its type. -/
def resolveHandler (a : Analysis) (frame : Frame) (id : ValueId) : Option Callable :=
  match resolveFunction frame id with
  | some c => some c
  | none => a.resolveMethod frame id "ServeHTTP"

end ServiceGraph.Analysis
