import ServiceGraph.Discovery
import ServiceGraph.Source.Node
import ServiceGraph.Text.Blank

namespace ServiceGraph.Source

/-- A line as a position counts it. -/
def lineNumber (line : Nat) : UInt32 := UInt32.ofNat (min line (UInt32.size - 1))

/-- What a method does on the bus. -/
def busRole? (method : String) : Option BusRole :=
  if Text.contains "NotifyMsg".toList method.toList then some .producer
  else if Text.contains "Subscribe".toList method.toList then some .consumer
  else none

def isSubject (name : String) : Bool := Text.endsWith "Subject".toList name.toList

namespace Node

/-- What a selector selects. -/
def field? (t : Node) : Option String :=
  match t.shape, t.content.getLast?.map shape with
  | .phrase .selector, some (.token _ field) => some field
  | _, _ => none

/-- What a call calls. Type arguments are not part of it. -/
def callee? (call : Node) : Option Node := call.content.head?

def arguments (call : Node) : List Node := (call.content.getLast?.map Tree.children).getD []

/-- The role and the subject of a call to the bus. The subject is the first argument that names one.
-/
def roleAndSubject? (t : Node) : Option (BusRole × String) := do
  guard (t.shape = .phrase .call)
  let callee ← t.callee?
  let role ← busRole? (← field? callee)
  let subject ← t.arguments.findSome? fun argument => (field? argument).filter isSubject
  return (role, subject)

/-- The call to the bus that a node is, in a file of a service. -/
def busCall? (service file : String) (t : Node) : Option BusCall := do
  let (role, subject) ← t.roleAndSubject?
  return ⟨role, subject, service, file, lineNumber t.line⟩

/-- The calls to the bus in a syntax tree, in order. -/
def busCalls (service file : String) (t : Node) : List BusCall :=
  (Cursor.ofTree t).scan (busCall? service file)

end Node

end ServiceGraph.Source
