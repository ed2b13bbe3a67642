import ServiceGraph.Dict
import ServiceGraph.Number.Binary64

namespace ServiceGraph

abbrev FunctionId := UInt32

abbrev ValueId := UInt32

abbrev BlockId := UInt32

/-- A line of a source file. -/
@[ext] structure Position where
  file : String
  line : UInt32
  deriving DecidableEq, Inhabited

namespace Position

/-- Positions are ordered by file and then by line. -/
instance : Ord Position where
  compare := compareLex (compareOn file) (compareOn line)

instance : Std.TransOrd Position :=
  inferInstanceAs (Std.TransCmp (compareLex (compareOn file) (compareOn line)))

/-- The text `file:line`. -/
def text (p : Position) : String := p.file ++ ":" ++ String.ofList (Decimal.natText p.line.toNat)

end Position

inductive Literal where
  | string (s : String)
  | int (n : Int64)
  | float (x : Binary64)
  | bool (b : Bool)
  | nil
  deriving DecidableEq

inductive BinaryOp where
  | add | sub | mul | div | rem | eq | ne | lt | le | gt | ge | other
  deriving DecidableEq

/-- What a call enters: a known function, a function value, or a method of the value behind an
interface. -/
inductive Callee where
  | static (func : FunctionId)
  | dynamic (value : ValueId)
  | invoke (receiver : ValueId) (method : String)
  deriving DecidableEq

structure Call where
  callee : Callee
  args : List ValueId
  deriving DecidableEq

/-- The arguments, with the receiver of an interface call in front. -/
def Call.arguments (c : Call) : List ValueId :=
  match c.callee with
  | .invoke receiver _ => receiver :: c.args
  | _ => c.args

/-- How a value is computed. -/
inductive ValueKind where
  | const (literal : Literal)
  | parameter (index : UInt64)
  | freeVar (index : UInt64)
  | function (func : FunctionId)
  | globalVar (name : String)
  | binary (op : BinaryOp) (x y : ValueId)
  | call (call : Call)
  | go (call : Call)
  | defer (call : Call)
  | makeInterface (x : ValueId)
  | makeClosure (func : FunctionId) (bindings : List ValueId)
  | convert (x : ValueId)
  | phi (edges : List ValueId)
  | alloc
  | indexAddr (x index : ValueId)
  | store (addr val : ValueId)
  | slice (x : ValueId)
  | jump
  | branch (cond : ValueId)
  | ret (results : List ValueId)
  | other
  deriving DecidableEq

structure Value where
  name : String
  type : String
  position : Option Position
  kind : ValueKind
  deriving DecidableEq

/-- The call that a value makes now, in a new thread, or at the end of its function. -/
def Value.call? (v : Value) : Option Call :=
  match v.kind with
  | .call c | .go c | .defer c => some c
  | _ => none

structure Block where
  index : UInt32
  instrs : List ValueId
  succs : List BlockId
  deriving DecidableEq

/-- A named slot of a function: a parameter or a captured variable. -/
structure Param where
  name : String
  value : ValueId
  deriving DecidableEq

structure Function where
  id : FunctionId
  name : String
  packagePath : String
  packageName : String
  receiver : Option String
  position : Option Position
  params : List Param
  freeVars : List Param
  values : List Value
  blocks : List Block
  deriving DecidableEq

namespace Function

/-- A function without a body, parameters and captured variables. -/
def declared (id : FunctionId) (package packageName name : String) : Function where
  id := id
  name := name
  packagePath := package
  packageName := packageName
  receiver := none
  position := none
  params := []
  freeVars := []
  values := []
  blocks := []

def value? (f : Function) (id : ValueId) : Option Value := f.values[id.toNat]?

def block? (f : Function) (id : BlockId) : Option Block := f.blocks[id.toNat]?

/-- The name of a function with its package, or with its receiver type for a method. -/
def signature (f : Function) : String :=
  match f.receiver with
  | some receiver => "(" ++ receiver ++ ")." ++ f.name
  | none => f.packagePath ++ "." ++ f.name

/-- A function without a body. -/
def isExternal (f : Function) : Bool := f.blocks.isEmpty

end Function

structure Package where
  path : String
  name : String
  errors : List String
  deriving DecidableEq

/-- Methods by name, for each type that has some. -/
abbrev MethodSets := Dict String (Dict String FunctionId)

structure Program where
  functions : List Function
  packages : List Package
  methodSets : MethodSets
  deriving DecidableEq

namespace Program

def function? (p : Program) (id : FunctionId) : Option Function := p.functions[id.toNat]?

/-- Whether some package of this path has errors. -/
def isErrored (p : Program) (path : String) : Bool :=
  p.packages.any fun pkg => pkg.path == path && !pkg.errors.isEmpty

/-- Whether a function is where a program starts. -/
def isEntry (p : Program) (f : Function) : Bool :=
  f.packageName == "main" && f.name == "main" && f.receiver.isNone && !f.isExternal &&
    !p.isErrored f.packagePath

def main? (p : Program) : Option Function := p.functions.find? p.isEntry

def usablePackages (p : Program) : List Package := p.packages.filter (·.errors.isEmpty)

def method? (p : Program) (type method : String) : Option FunctionId := do
  (← p.methodSets.get? type).get? method

end Program

end ServiceGraph
