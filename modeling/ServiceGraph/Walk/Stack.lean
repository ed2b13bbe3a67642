import ServiceGraph.Program.Basic

namespace ServiceGraph

/-- A value of the function that is active at a level. The entry function is at level zero. -/
@[ext] structure Bound where
  level : Nat
  value : ValueId
  deriving DecidableEq

/-- A function that was entered: how many functions were active then, the positions of the calls that
led to it, and what its parameters and captured variables are bound to, by name. -/
@[ext] structure Activation where
  function : Function
  depth : Nat
  trace : List Position
  params : List (String × Bound)
  freeVars : List (String × Bound)
  deriving DecidableEq

@[ext] structure Frame where
  top : Activation
  below : List Activation
  deriving DecidableEq

/-- A function, and the values that its captured variables are bound to. -/
@[ext] structure Callable where
  func : FunctionId
  bindings : List Bound
  deriving DecidableEq

/-- Binds slots to values by position; slots without a value stay unbound. -/
def bindSlots (slots : List Param) (values : List Bound) : List (String × Bound) :=
  (slots.map (·.name)).zip values

/-- The last binding of a name. -/
def boundTo? (bindings : List (String × Bound)) (name : String) : Option Bound :=
  bindings.reverse.lookup name

namespace Frame

def function (f : Frame) : Function := f.top.function

def depth (f : Frame) : Nat := f.top.depth

/-- The active functions, innermost first. -/
def activations (f : Frame) : List Activation := f.top :: f.below

/-- The frame at a level of the stack. -/
def atLevel (f : Frame) (level : Nat) : Frame :=
  match f.activations.drop (f.depth - level) with
  | [] => f
  | top :: below => ⟨top, below⟩

/-- A value of the active function. -/
def bound (f : Frame) (value : ValueId) : Bound := ⟨f.depth, value⟩

/-- The frame of the function where a walk starts. -/
def entry (function : Function) : Frame := ⟨⟨function, 0, [], [], []⟩, []⟩

/-- The frame of a function that is called at `site`. -/
def descend (f : Frame) (site : Position) (callee : Function) (call : Call) (callable : Callable) :
    Frame where
  top := {
    function := callee
    depth := f.depth + 1
    trace := f.top.trace ++ [site]
    params := bindSlots callee.params (call.arguments.map f.bound)
    freeVars := bindSlots callee.freeVars callable.bindings }
  below := f.activations

/-- The frame of a handler that is registered at `site`. Its trace starts there, and nothing is
known about its parameters. -/
def handler (f : Frame) (site : Position) (callee : Function) (callable : Callable) : Frame where
  top := {
    function := callee
    depth := f.depth + 1
    trace := [site]
    params := []
    freeVars := bindSlots callee.freeVars callable.bindings }
  below := f.activations

/-- What the parameter at a position is bound to. -/
def param? (f : Frame) (index : UInt64) : Option Bound := do
  boundTo? f.top.params (← f.function.params[index.toNat]?).name

/-- What the captured variable at a position is bound to. -/
def freeVar? (f : Frame) (index : UInt64) : Option Bound := do
  boundTo? f.top.freeVars (← f.function.freeVars[index.toNat]?).name

/-- The trace of a call at `site`. -/
def traceTo (f : Frame) (site : Position) : List Position := f.top.trace ++ [site]

theorem depth_descend (f : Frame) (site : Position) (callee : Function) (call : Call)
    (callable : Callable) : (f.descend site callee call callable).depth = f.depth + 1 := rfl

theorem depth_handler (f : Frame) (site : Position) (callee : Function) (callable : Callable) :
    (f.handler site callee callable).depth = f.depth + 1 := rfl

end Frame

end ServiceGraph
