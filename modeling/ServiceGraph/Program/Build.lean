import ServiceGraph.Program.Draft
import ServiceGraph.Text.Blank

namespace ServiceGraph

/-- A program, and the functions of it that are under construction. -/
structure Build where
  program : Program
  drafts : List (FunctionId × Draft)
  deriving DecidableEq

/-- Steps of the construction of a program. -/
inductive BuildStep where
  | external (package name : String)
  | externalMethod (receiver package name : String)
  | declare (package packageName name : String)
  | declareMethod (receiver package packageName name : String)
  | define (func : FunctionId)
  | addMethod (type method : String) (func : FunctionId)
  | packageErrors (package : String) (errors : List String)
  | fill (func : FunctionId) (step : DraftStep)
  deriving DecidableEq

namespace Build

def empty : Build := ⟨⟨[], [], .empty⟩, []⟩

/-- The part of a package path after the last `/`. -/
def lastSegment (path : String) : String := String.ofList (Text.afterLast '/' path.toList)

/-- Adds a function without a body. -/
def addFunction (b : Build) (package packageName name : String) (receiver : Option String) :
    Except BuildError (Build × Function) := do
  let id ← freshId b.program.functions.length
  let f := { Function.declared id package packageName name with receiver }
  return ({ b with program := { b.program with functions := b.program.functions ++ [f] } }, f)

/-- Adds a package unless its path is known. -/
def registerPackage (b : Build) (path name : String) : Build :=
  if b.program.packages.any (·.path == path) then b
  else { b with program := { b.program with
    packages := b.program.packages ++ [⟨path, name, []⟩] } }

/-- Declares a function and starts its construction. The receiver of a method is known only once it
is defined. -/
def declare (b : Build) (package packageName name : String) (receiver : Option String) :
    Except BuildError (Build × FunctionId) := do
  let (b, f) ← b.addFunction package packageName name none
  let b := b.registerPackage package packageName
  return ({ b with drafts := (f.id, Draft.ofFunction { f with receiver }) :: b.drafts }, f.id)

def draft? (b : Build) (func : FunctionId) : Except BuildError Draft :=
  match b.drafts.lookup func with
  | some d => .ok d
  | none => .error .noDraft

/-- Puts a finished function into its place. -/
def define (b : Build) (func : FunctionId) : Except BuildError Build := do
  let d ← b.draft? func
  return {
    program := { b.program with functions := b.program.functions.set func.toNat d.function }
    drafts := b.drafts.filter (·.1 != func) }

/-- Changes the first package of a path. -/
def setErrors (packages : List Package) (path : String) (errors : List String) : List Package :=
  match packages with
  | [] => []
  | p :: rest =>
    if p.path == path then { p with errors } :: rest else p :: setErrors rest path errors

/-- One step, with the id that it made. -/
def step (b : Build) : BuildStep → Except BuildError (Build × Option UInt32)
  | .external package name => do
    let (b, f) ← b.addFunction package (lastSegment package) name none
    return (b, some f.id)
  | .externalMethod receiver package name => do
    let (b, f) ← b.addFunction package (lastSegment package) name (some receiver)
    return (b, some f.id)
  | .declare package packageName name => do
    let (b, id) ← b.declare package packageName name none
    return (b, some id)
  | .declareMethod receiver package packageName name => do
    let (b, id) ← b.declare package packageName name (some receiver)
    return (b, some id)
  | .define func => return (← b.define func, none)
  | .addMethod type method func =>
    let methodSets := b.program.methodSets.update type .empty (·.insert method func)
    return ({ b with program := { b.program with methodSets } }, none)
  | .packageErrors package errors =>
    let b := b.registerPackage package (lastSegment package)
    let packages := setErrors b.program.packages package errors
    return ({ b with program := { b.program with packages } }, none)
  | .fill func step => do
    let (d, made) ← (← b.draft? func).step step
    let drafts := b.drafts.map fun e => if e.1 == func then (func, d) else e
    return ({ b with drafts }, made)

/-- All steps in order, with what each of them made. -/
def run (b : Build) : List BuildStep → Except BuildError (Build × List (Option UInt32))
  | [] => return (b, [])
  | s :: rest => do
    let (b, made) ← b.step s
    let (b, more) ← b.run rest
    return (b, made :: more)

end Build

end ServiceGraph
