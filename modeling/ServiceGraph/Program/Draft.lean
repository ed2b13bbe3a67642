import ServiceGraph.Program.Basic

namespace ServiceGraph

inductive BuildError where
  /-- An instruction was added while the current block does not exist. -/
  | noBlock
  /-- A step names a function that is not under construction. -/
  | noDraft
  /-- All ids are in use. -/
  | full
  deriving DecidableEq

/-- The id at a position, as long as there are ids. -/
def freshId (position : Nat) : Except BuildError UInt32 :=
  if position < UInt32.size then .ok (UInt32.ofNat position) else .error .full

structure Draft where
  function : Function
  current : BlockId
  file : String
  deriving DecidableEq

/-- Steps of the construction of a function. -/
inductive DraftStep where
  | inFile (file : String)
  | param (name type : String)
  | freeVar (name type : String)
  | constStr (s : String)
  | constInt (n : Int64)
  | nil (type : String)
  | globalVar (name type : String)
  | funcRef (func : FunctionId)
  | add (x y : ValueId)
  | binary (op : BinaryOp) (x y : ValueId)
  | call (func : FunctionId) (args : List ValueId) (line : UInt32)
  | go (func : FunctionId) (args : List ValueId) (line : UInt32)
  | callValue (value : ValueId) (args : List ValueId) (line : UInt32)
  | invoke (receiver : ValueId) (method : String) (args : List ValueId) (line : UInt32)
  | makeInterface (x : ValueId) (type : String)
  | makeClosure (func : FunctionId) (bindings : List ValueId)
  | convert (x : ValueId) (type : String)
  | alloc (type : String)
  | phi (edges : List ValueId) (type : String)
  | variadic (elements : List ValueId)
  | newBlock
  | switchTo (block : BlockId)
  | jump (block : BlockId)
  | branch (cond : ValueId) (yes no : BlockId)
  | ret
  deriving DecidableEq

namespace Draft

/-- A function with one empty block. -/
def ofFunction (f : Function) : Draft :=
  { function := { f with blocks := f.blocks ++ [⟨0, [], []⟩] }, current := 0, file := "main.go" }

/-- Adds a value; one without a name is named after its id. -/
def addValue (d : Draft) (name type : String) (position : Option Position) (kind : ValueKind) :
    Except BuildError (Draft × ValueId) := do
  let id ← freshId d.function.values.length
  let name := if name.isEmpty then "t" ++ String.ofList (Decimal.natText id.toNat) else name
  let v : Value := ⟨name, type, position, kind⟩
  return ({ d with function := { d.function with values := d.function.values ++ [v] } }, id)

/-- Changes the current block. -/
def changeBlock (d : Draft) (change : Block → Block) : Except BuildError Draft :=
  if d.current.toNat < d.function.blocks.length then
    .ok { d with function := { d.function with
      blocks := d.function.blocks.modify d.current.toNat change } }
  else .error .noBlock

/-- Adds a value and enters it into the current block. -/
def addInstr (d : Draft) (type : String) (position : Option Position) (kind : ValueKind) :
    Except BuildError (Draft × ValueId) := do
  let (d, id) ← d.addValue "" type position kind
  let d ← d.changeBlock fun b => { b with instrs := b.instrs ++ [id] }
  return (d, id)

def addCall (d : Draft) (callee : Callee) (args : List ValueId) (line : UInt32) :
    Except BuildError (Draft × ValueId) :=
  d.addInstr "" (some ⟨d.file, line⟩) (.call ⟨callee, args⟩)

/-- Stores elements into an array from position `index` on, each boxed in an interface. -/
def storeElements (array : ValueId) (index : Nat) (d : Draft) :
    List ValueId → Except BuildError Draft
  | [] => .ok d
  | e :: rest => do
    let (d, i) ← d.addValue "" "int" none (.const (.int (Int64.ofNat index)))
    let (d, addr) ← d.addInstr "*any" none (.indexAddr array i)
    let (d, boxed) ← d.addInstr "any" none (.makeInterface e)
    let (d, _) ← d.addInstr "" none (.store addr boxed)
    storeElements array (index + 1) d rest

/-- A list of arguments: an array, its elements, and a slice of it. -/
def addVariadic (d : Draft) (elements : List ValueId) : Except BuildError (Draft × ValueId) := do
  let (d, array) ← d.addInstr "*[]any" none .alloc
  let d ← storeElements array 0 d elements
  d.addInstr "[]any" none (.slice array)

def addParam (d : Draft) (name type : String) : Except BuildError (Draft × ValueId) := do
  let index := UInt64.ofNat d.function.params.length
  let (d, id) ← d.addValue name type none (.parameter index)
  let params := d.function.params ++ [⟨name, id⟩]
  return ({ d with function := { d.function with params } }, id)

def addFreeVar (d : Draft) (name type : String) : Except BuildError (Draft × ValueId) := do
  let index := UInt64.ofNat d.function.freeVars.length
  let (d, id) ← d.addValue name type none (.freeVar index)
  let freeVars := d.function.freeVars ++ [⟨name, id⟩]
  return ({ d with function := { d.function with freeVars } }, id)

def addBlock (d : Draft) : Except BuildError (Draft × BlockId) := do
  let id ← freshId d.function.blocks.length
  return ({ d with function := { d.function with
    blocks := d.function.blocks ++ [⟨id, [], []⟩] } }, id)

/-- Ends the current block with an instruction that leads to other blocks. -/
def leave (d : Draft) (kind : ValueKind) (succs : List BlockId) : Except BuildError Draft := do
  let (d, _) ← d.addInstr "" none kind
  d.changeBlock fun b => { b with succs := b.succs ++ succs }

/-- One step, with the id of the value or block that it made. -/
def step (d : Draft) : DraftStep → Except BuildError (Draft × Option UInt32)
  | .inFile file => return ({ d with file }, none)
  | .param name type => made (d.addParam name type)
  | .freeVar name type => made (d.addFreeVar name type)
  | .constStr s => made (d.addValue "" "string" none (.const (.string s)))
  | .constInt n => made (d.addValue "" "int" none (.const (.int n)))
  | .nil type => made (d.addValue "" type none (.const .nil))
  | .globalVar name type => made (d.addValue name type none (.globalVar name))
  | .funcRef func => made (d.addValue "" "func()" none (.function func))
  | .add x y => made (d.addInstr "string" none (.binary .add x y))
  | .binary op x y => made (d.addInstr "int" none (.binary op x y))
  | .call func args line => made (d.addCall (.static func) args line)
  | .go func args line =>
    made (d.addInstr "" (some ⟨d.file, line⟩) (.go ⟨.static func, args⟩))
  | .callValue value args line => made (d.addCall (.dynamic value) args line)
  | .invoke receiver method args line => made (d.addCall (.invoke receiver method) args line)
  | .makeInterface x type => made (d.addInstr type none (.makeInterface x))
  | .makeClosure func bindings => made (d.addInstr "func()" none (.makeClosure func bindings))
  | .convert x type => made (d.addInstr type none (.convert x))
  | .alloc type => made (d.addInstr type none .alloc)
  | .phi edges type => made (d.addInstr type none (.phi edges))
  | .variadic elements => made (d.addVariadic elements)
  | .newBlock => made d.addBlock
  | .switchTo block => return ({ d with current := block }, none)
  | .jump block => return (← d.leave .jump [block], none)
  | .branch cond yes no => return (← d.leave (.branch cond) [yes, no], none)
  | .ret => return (← d.leave (.ret []) [], none)
where
  made (result : Except BuildError (Draft × UInt32)) :
      Except BuildError (Draft × Option UInt32) := do
    let (d, id) ← result
    return (d, some id)

/-- All steps in order, with what each of them made. -/
def run (d : Draft) : List DraftStep → Except BuildError (Draft × List (Option UInt32))
  | [] => return (d, [])
  | s :: rest => do
    let (d, made) ← d.step s
    let (d, more) ← d.run rest
    return (d, made :: more)

end Draft

end ServiceGraph
