import ServiceGraph.Json.Printer
import ServiceGraph.Json.Record
import ServiceGraph.Program.Basic
import ServiceGraph.Text.Utf8

namespace ServiceGraph

open Json (ofNat ofInt orElse)

/-- Members that are there only if there is a value. -/
def Json.optionMember {α : Type} (name : String) (write : α → Json) :
    Option α → List (String × Json)
  | none => []
  | some a => [(name, write a)]

/-- A list that is written only if it is not empty. -/
def Json.listMember {α : Type} (name : String) (write : α → Json) :
    List α → List (String × Json)
  | [] => []
  | a :: as => [(name, .arr ((a :: as).map write))]

def idJson (id : UInt32) : Json := ofNat id.toNat

def idsJson (ids : List UInt32) : Json := .arr (ids.map idJson)

def ids? : Json → Option (List UInt32) := Json.list? Json.uint32?

namespace Position

def toJson (p : Position) : Json := .obj [("file", .str p.file), ("line", idJson p.line)]

def ofJson? (j : Json) : Option Position := do
  let [file, line] ← j.fields? ["file", "line"] | none
  return { file := ← (← file).string?, line := ← (← line).uint32? }

end Position

namespace Literal

def toJson : Literal → Json
  | string s => .obj [("type", .str "string"), ("value", .str s)]
  | int n => .obj [("type", .str "int"), ("value", ofInt n.toInt)]
  | float x => .obj [("type", .str "float"), ("value", .num (.numeral (.ofBinary64 x)))]
  | bool b => .obj [("type", .str "bool"), ("value", .bool b)]
  | nil => .obj [("type", .str "nil")]

/-- A literal of a type; only `nil` may be without a value. -/
def ofContent? (type : String) (value : Option Json) : Option Literal :=
  match type with
  | "string" => do return string (← (← value).string?)
  | "int" => do return int (← (← value).int64?)
  | "float" => do return float (← (← value).binary64?)
  | "bool" => do return bool (← (← value).bool?)
  | "nil" =>
    match value with
    | none | some .null => some nil
    | _ => none
  | _ => none

def typeNames : List String := ["string", "int", "float", "bool", "nil"]

/-- In an array the type may be given by its place. -/
def ofJson? : Json → Option Literal
  | .obj members => do
    let type ← (← (← Json.member? members "type")).alternative? Json.isNullOrEmpty
    ofContent? type (← Json.member? members "value")
  | .arr [type, value] => do ofContent? (← type.nameOrPlace? typeNames none) (some value)
  | _ => none

end Literal

namespace BinaryOp

def name : BinaryOp → String
  | add => "add" | sub => "sub" | mul => "mul" | div => "div" | rem => "rem"
  | eq => "eq" | ne => "ne" | lt => "lt" | le => "le" | gt => "gt" | ge => "ge"
  | other => "other"

/-- Every name that is not known is some other operation. -/
def ofName (s : String) : BinaryOp :=
  match s with
  | "add" => add | "sub" => sub | "mul" => mul | "div" => div | "rem" => rem
  | "eq" => eq | "ne" => ne | "lt" => lt | "le" => le | "gt" => gt | "ge" => ge
  | _ => other

def ofJson? (j : Json) : Option BinaryOp := (j.alternative? Json.isNullOrEmpty).map ofName

end BinaryOp

namespace Callee

def toJson : Callee → Json
  | static func => .obj [("mode", .str "static"), ("func", idJson func)]
  | dynamic value => .obj [("mode", .str "dynamic"), ("value", idJson value)]
  | invoke receiver method =>
    .obj [("mode", .str "invoke"), ("receiver", idJson receiver), ("method", .str method)]

/-- A callee of a mode, from what is left of the value without the mode. -/
def ofContent? (mode : String) (content : Json) : Option Callee :=
  match mode with
  | "static" => do
    let [func] ← content.fields? ["func"] | none
    return static (← (← func).uint32?)
  | "dynamic" => do
    let [value] ← content.fields? ["value"] | none
    return dynamic (← (← value).uint32?)
  | "invoke" => do
    let [receiver, method] ← content.fields? ["receiver", "method"] | none
    return invoke (← (← receiver).uint32?) (← (← method).string?)
  | _ => none

def modes : List String := ["static", "dynamic", "invoke"]

/-- The mode may be given by its place. -/
def ofJson? : Json → Option Callee
  | .obj members => do
    let mode ← (← (← Json.member? members "mode")).nameOrPlace? modes none
    ofContent? mode (.obj members)
  | .arr (mode :: rest) => do ofContent? (← mode.nameOrPlace? modes none) (.arr rest)
  | _ => none

end Callee

namespace Call

def toJson (c : Call) : Json := .obj [("callee", c.callee.toJson), ("args", idsJson c.args)]

def ofJson? (j : Json) : Option Call := do
  let [callee, args] ← j.fields? ["callee", "args"] | none
  return { callee := ← Callee.ofJson? (← callee), args := ← orElse [] ids? args }

end Call

namespace ValueKind

/-- The members that say how a value is computed. -/
def members : ValueKind → List (String × Json)
  | const literal => [("instr", .str "const"), ("literal", literal.toJson)]
  | parameter index => [("instr", .str "parameter"), ("index", ofNat index.toNat)]
  | freeVar index => [("instr", .str "free_var"), ("index", ofNat index.toNat)]
  | function func => [("instr", .str "function"), ("func", idJson func)]
  | globalVar name => [("instr", .str "global"), ("global", .str name)]
  | binary op x y =>
    [("instr", .str "bin_op"), ("op", .str op.name), ("x", idJson x), ("y", idJson y)]
  | call c => [("instr", .str "call"), ("call", c.toJson)]
  | go c => [("instr", .str "go"), ("call", c.toJson)]
  | defer c => [("instr", .str "defer"), ("call", c.toJson)]
  | makeInterface x => [("instr", .str "make_interface"), ("x", idJson x)]
  | makeClosure func bindings =>
    [("instr", .str "make_closure"), ("func", idJson func), ("bindings", idsJson bindings)]
  | convert x => [("instr", .str "convert"), ("x", idJson x)]
  | phi edges => [("instr", .str "phi"), ("edges", idsJson edges)]
  | alloc => [("instr", .str "alloc")]
  | indexAddr x index =>
    [("instr", .str "index_addr"), ("x", idJson x), ("index", idJson index)]
  | store addr val => [("instr", .str "store"), ("addr", idJson addr), ("val", idJson val)]
  | slice x => [("instr", .str "slice"), ("x", idJson x)]
  | jump => [("instr", .str "jump")]
  | branch cond => [("instr", .str "if"), ("cond", idJson cond)]
  | ret results => [("instr", .str "return"), ("results", idsJson results)]
  | other => [("instr", .str "other")]

def names : List String :=
  ["const", "parameter", "free_var", "function", "global", "bin_op", "call", "go", "defer",
    "make_interface", "make_closure", "convert", "phi", "alloc", "index_addr", "store", "slice",
    "jump", "if", "return", "other"]

/-- The kind of an instruction from its members. A name that is not known is some other
instruction, whose members are of no interest. -/
def ofContent? (instr : String) (content : Json) : Option ValueKind :=
  let one (name : String) : Option Json := do
    let [field] ← content.fields? [name] | none
    field
  let id (name : String) : Option UInt32 := do (← one name).uint32?
  match instr with
  | "const" => do return const (← Literal.ofJson? (← one "literal"))
  | "parameter" => do return parameter (← (← one "index").uint64?)
  | "free_var" => do return freeVar (← (← one "index").uint64?)
  | "function" => do return function (← id "func")
  | "global" => do return globalVar (← (← one "global").string?)
  | "bin_op" => do return binary (← BinaryOp.ofJson? (← one "op")) (← id "x") (← id "y")
  | "call" => do return call (← Call.ofJson? (← one "call"))
  | "go" => do return go (← Call.ofJson? (← one "call"))
  | "defer" => do return defer (← Call.ofJson? (← one "call"))
  | "make_interface" => do return makeInterface (← id "x")
  | "make_closure" => do return makeClosure (← id "func") (← ids? (← one "bindings"))
  | "convert" => do return convert (← id "x")
  | "phi" => do return phi (← ids? (← one "edges"))
  | "alloc" => some alloc
  | "index_addr" => do return indexAddr (← id "x") (← id "index")
  | "store" => do return store (← id "addr") (← id "val")
  | "slice" => do return slice (← id "x")
  | "jump" => some jump
  | "if" => do return branch (← id "cond")
  | "return" => do
    let [results] ← content.fields? ["results"] | none
    return ret (← orElse [] ids? results)
  | _ => some other

end ValueKind

namespace Value

/-- Members of a value may nest this deep: a document nests 127 deep at most, and a value stands
five deep in a program. -/
def memberDepth : Nat := 122

def toJson (v : Value) : Json :=
  .obj ([("name", .str v.name), ("ty", .str v.type)] ++
    Json.optionMember "pos" Position.toJson v.position ++ v.kind.members)

/-- A value is an object. Apart from its name, type and position all of its members have to be
readable, also those that its kind does not use. -/
def ofJson? : Json → Option Value
  | .obj members => do
    let name ← Json.member? members "name"
    let type ← Json.member? members "ty"
    let position ← Json.member? members "pos"
    let content := members.filter fun m => m.1 != "name" && m.1 != "ty" && m.1 != "pos"
    guard (Json.readableMembers memberDepth content)
    let instr ← (← (← Json.member? content "instr")).nameOrPlace? ValueKind.names (some "other")
    return {
      name := ← orElse "" Json.string? name
      type := ← orElse "" Json.string? type
      position := ← orElse none (Json.nullable? Position.ofJson?) position
      kind := ← ValueKind.ofContent? instr (.obj content) }
  | _ => none

end Value

namespace Block

def toJson (b : Block) : Json :=
  .obj [("index", idJson b.index), ("instrs", idsJson b.instrs), ("succs", idsJson b.succs)]

def ofJson? (j : Json) : Option Block := do
  let [index, instrs, succs] ← j.fields? ["index", "instrs", "succs"] | none
  return {
    index := ← (← index).uint32?
    instrs := ← orElse [] ids? instrs
    succs := ← orElse [] ids? succs }

end Block

namespace Param

def toJson (p : Param) : Json := .obj [("name", .str p.name), ("value", idJson p.value)]

def ofJson? (j : Json) : Option Param := do
  let [name, value] ← j.fields? ["name", "value"] | none
  return { name := ← (← name).string?, value := ← (← value).uint32? }

end Param

namespace Function

def toJson (f : Function) : Json :=
  .obj ([("id", idJson f.id), ("name", .str f.name), ("package_path", .str f.packagePath),
      ("package_name", .str f.packageName)] ++
    Json.optionMember "receiver" .str f.receiver ++
    Json.optionMember "pos" Position.toJson f.position ++
    [("params", .arr (f.params.map Param.toJson))] ++
    Json.listMember "free_vars" Param.toJson f.freeVars ++
    [("values", .arr (f.values.map Value.toJson)), ("blocks", .arr (f.blocks.map Block.toJson))])

def ofJson? (j : Json) : Option Function := do
  let [id, name, packagePath, packageName, receiver, position, params, freeVars, values, blocks] ←
    j.fields? ["id", "name", "package_path", "package_name", "receiver", "pos", "params",
      "free_vars", "values", "blocks"] | none
  return {
    id := ← (← id).uint32?
    name := ← (← name).string?
    packagePath := ← (← packagePath).string?
    packageName := ← (← packageName).string?
    receiver := ← orElse none (Json.nullable? Json.string?) receiver
    position := ← orElse none (Json.nullable? Position.ofJson?) position
    params := ← orElse [] (Json.list? Param.ofJson?) params
    freeVars := ← orElse [] (Json.list? Param.ofJson?) freeVars
    values := ← orElse [] (Json.list? Value.ofJson?) values
    blocks := ← orElse [] (Json.list? Block.ofJson?) blocks }

end Function

namespace Package

def toJson (p : Package) : Json :=
  .obj ([("path", .str p.path), ("name", .str p.name)] ++ Json.listMember "errors" .str p.errors)

def ofJson? (j : Json) : Option Package := do
  let [path, name, errors] ← j.fields? ["path", "name", "errors"] | none
  return {
    path := ← (← path).string?
    name := ← (← name).string?
    errors := ← orElse [] (Json.list? Json.string?) errors }

end Package

namespace Json

/-- A map as an object with its keys in order. -/
def ofDict {α : Type} (write : α → Json) (d : Dict String α) : Json :=
  .obj (d.entries.map fun e => (e.1, write e.2))

/-- A map from an object; of a repeated name the last member counts. -/
def dict? {α : Type} (read : Json → Option α) : Json → Option (Dict String α)
  | .obj members => do return Dict.ofList (← members.mapM fun m => do return (m.1, ← read m.2))
  | _ => none

end Json

namespace Program

def toJson (p : Program) : Json :=
  .obj ([("functions", .arr (p.functions.map Function.toJson)),
      ("packages", .arr (p.packages.map Package.toJson))] ++
    if p.methodSets.isEmpty then []
    else [("method_sets", Json.ofDict (Json.ofDict idJson) p.methodSets)])

def ofJson? (j : Json) : Option Program := do
  let [functions, packages, methodSets] ← j.fields? ["functions", "packages", "method_sets"] | none
  return {
    functions := ← (← functions).list? Function.ofJson?
    packages := ← orElse [] (Json.list? Package.ofJson?) packages
    methodSets := ← orElse .empty (Json.dict? (Json.dict? Json.uint32?)) methodSets }

/-- The program that a text spells. -/
def parse? (text : List Char) : Option Program := do ofJson? (← Json.parse? text)

/-- The program that bytes spell. What is not read need not be text. -/
def parseBytes? (bytes : ByteArray) : Option Program := do
  ofJson? (← Json.parseInput? (Text.decode bytes))

end Program

end ServiceGraph
