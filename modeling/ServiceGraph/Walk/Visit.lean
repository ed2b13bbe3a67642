import ServiceGraph.Walk.Callable

namespace ServiceGraph

/-- Blocks that were entered on the way to a point of the walk. A block is named by the id of its
function and its own. -/
abbrev Visited := List (FunctionId × BlockId)

/-- A client or endpoint call that the walk came to, in its frame. The argument at `index` says where
it goes. -/
structure Visit where
  kind : CallKind
  frame : Frame
  site : Position
  callee : Function
  call : Call
  index : UInt64
  deriving DecidableEq

def Visit.trace (v : Visit) : List Position := v.frame.traceTo v.site

/-- The position of a call, or of its function when it has none. -/
def Function.callSite (f : Function) (id : ValueId) : Position :=
  ((f.value? id).bind (·.position)).getD (f.position.getD ⟨"", 0⟩)

namespace Analysis

/-- Whether the walk may go into a function. -/
def mayEnter (a : Analysis) (frame : Frame) (visited : Visited) (callee : Function) : Bool :=
  !callee.isExternal && !a.settings.isIgnored callee.packagePath &&
    decide (frame.depth < a.settings.maxRecursionDepth) && !visited.contains (callee.id, 0)

/-- The frame of the handler that is passed at `index` of a call, if it may be entered. -/
def handlerFrame? (a : Analysis) (frame : Frame) (visited : Visited) (site : Position) (call : Call)
    (index : UInt64) : Option Frame := do
  let callable ← a.resolveHandler frame (← call.arguments[index.toNat]?)
  let callee ← a.program.function? callable.func
  if a.mayEnter frame visited callee then some (frame.handler site callee callable) else none

/-- The visits at a call, where `enter` gives those of a function that is gone into. -/
def visitCall (a : Analysis) (enter : Frame → List Visit) (frame : Frame) (visited : Visited)
    (site : Position) (call : Call) : List Visit :=
  match a.resolveCallee frame call with
  | none => []
  | some callable =>
    match a.program.function? callable.func with
    | none => []
    | some callee =>
      match a.settings.classify callee.signature with
      | some (.client, index) => [⟨.client, frame, site, callee, call, index⟩]
      | some (.endpoint, index) =>
        ⟨.endpoint, frame, site, callee, call, index⟩ ::
          ((a.handlerFrame? frame visited site call (index + 1)).map enter).getD []
      | some (.substitute, _) => []
      | none =>
        if a.mayEnter frame visited callee then enter (frame.descend site callee call callable)
        else []

/-- The visits at an instruction of the active function; only calls have some. -/
def visitInstr (a : Analysis) (enter : Frame → List Visit) (frame : Frame) (visited : Visited)
    (id : ValueId) : List Visit :=
  match (frame.function.value? id).bind (·.call?) with
  | some call => a.visitCall enter frame visited (frame.function.callSite id) call
  | none => []

/-- The visits from a block on, and the blocks that were entered by then. What a function that is
gone into enters is not counted for its caller. -/
def walkBlock (a : Analysis) : (fuel : Nat) → Frame → Visited → BlockId → List Visit × Visited
  | 0, _, visited, _ => ([], visited)
  | fuel + 1, frame, visited, block =>
    if visited.contains (frame.function.id, block) then ([], visited)
    else
      let visited := (frame.function.id, block) :: visited
      match frame.function.block? block with
      | none => ([], visited)
      | some b =>
        let enter (child : Frame) : List Visit := (a.walkBlock fuel child visited 0).1
        let visits := b.instrs.flatMap (a.visitInstr enter frame visited)
        b.succs.foldl (fun (visits, visited) succ =>
          let (more, visited) := a.walkBlock fuel frame visited succ
          (visits ++ more, visited)) (visits, visited)

/-- A bound on the nesting of blocks: none of them is entered twice on one way. -/
def blockCount (p : Program) : Nat :=
  p.functions.foldr (fun f n => f.blocks.length + n) 0

/-- All visits from the entry of the program. -/
def visits (a : Analysis) : List Visit :=
  match a.program.main? with
  | none => []
  | some main => (a.walkBlock (blockCount a.program + 1) (.entry main) [] 0).1

end Analysis

end ServiceGraph
