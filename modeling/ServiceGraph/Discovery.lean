import ServiceGraph.Program.Codec

namespace ServiceGraph

/-- Whether a call goes out of a service or registers an endpoint of it. -/
inductive CallKind where
  | client
  | endpoint
  deriving DecidableEq

/-- A client or endpoint call. The trace leads from an entry of the service to the call, which is
its last position. -/
@[ext] structure CallTarget where
  packageName : String
  methodName : String
  serviceName : String
  requestLocation : String
  isResolved : Bool
  targetService : Option String
  trace : List Position
  deriving DecidableEq

namespace CallTarget

/-- The position of the call itself. -/
def innermost? (t : CallTarget) : Option Position := t.trace.getLast?

def location (t : CallTarget) : String := (t.innermost?.map Position.text).getD ""

/-- Sets the location. An empty location leaves the target unresolved. -/
def resolveTo (t : CallTarget) (location : String) : CallTarget :=
  { t with requestLocation := location, isResolved := !location.isEmpty }

def toJson (t : CallTarget) : Json :=
  .obj ([("package_name", .str t.packageName), ("method_name", .str t.methodName),
      ("service_name", .str t.serviceName), ("request_location", .str t.requestLocation),
      ("is_resolved", .bool t.isResolved)] ++
    Json.optionMember "target_service" .str t.targetService ++
    [("trace", .arr (t.trace.map Position.toJson))])

def ofJson? (j : Json) : Option CallTarget := do
  let [packageName, methodName, serviceName, requestLocation, isResolved, targetService, trace] ←
    j.fields? ["package_name", "method_name", "service_name", "request_location", "is_resolved",
      "target_service", "trace"] | none
  return {
    packageName := ← (← packageName).string?
    methodName := ← (← methodName).string?
    serviceName := ← (← serviceName).string?
    requestLocation := ← (← requestLocation).string?
    isResolved := ← (← isResolved).bool?
    targetService := ← Json.orElse none (Json.nullable? Json.string?) targetService
    trace := ← (← trace).list? Position.ofJson? }

end CallTarget

inductive BusRole where
  | producer
  | consumer
  deriving DecidableEq

namespace BusRole

def name : BusRole → String
  | producer => "producer"
  | consumer => "consumer"

def ofJson? (j : Json) : Option BusRole := do
  match ← j.alternative? Json.isNull with
  | "producer" => some producer
  | "consumer" => some consumer
  | _ => none

end BusRole

/-- A call that sends or receives the messages of a subject. -/
@[ext] structure BusCall where
  role : BusRole
  subject : String
  serviceName : String
  file : String
  line : UInt32
  deriving DecidableEq

namespace BusCall

def location (c : BusCall) : String := Position.text ⟨c.file, c.line⟩

def toJson (c : BusCall) : Json :=
  .obj [("role", .str c.role.name), ("subject", .str c.subject),
    ("service_name", .str c.serviceName), ("file", .str c.file), ("line", idJson c.line)]

def ofJson? (j : Json) : Option BusCall := do
  let [role, subject, serviceName, file, line] ←
    j.fields? ["role", "subject", "service_name", "file", "line"] | none
  return {
    role := ← BusRole.ofJson? (← role)
    subject := ← (← subject).string?
    serviceName := ← (← serviceName).string?
    file := ← (← file).string?
    line := ← (← line).uint32? }

end BusCall

@[ext] structure Discovery where
  clients : List CallTarget
  endpoints : List CallTarget
  busCalls : List BusCall
  deriving DecidableEq

namespace Discovery

def empty : Discovery := ⟨[], [], []⟩

/-- The findings of both, those of `a` first. -/
def append (a b : Discovery) : Discovery :=
  ⟨a.clients ++ b.clients, a.endpoints ++ b.endpoints, a.busCalls ++ b.busCalls⟩

/-- Findings of several services one after the other. -/
def concat (ds : List Discovery) : Discovery := ds.foldl append empty

def targets (d : Discovery) : CallKind → List CallTarget
  | .client => d.clients
  | .endpoint => d.endpoints

def setTargets (d : Discovery) (kind : CallKind) (targets : List CallTarget) : Discovery :=
  match kind with
  | .client => { d with clients := targets }
  | .endpoint => { d with endpoints := targets }

def toJson (d : Discovery) : Json :=
  .obj [("clients", .arr (d.clients.map CallTarget.toJson)),
    ("endpoints", .arr (d.endpoints.map CallTarget.toJson)),
    ("bus_calls", .arr (d.busCalls.map BusCall.toJson))]

def ofJson? (j : Json) : Option Discovery := do
  let [clients, endpoints, busCalls] ← j.fields? ["clients", "endpoints", "bus_calls"] | none
  return {
    clients := ← (← clients).list? CallTarget.ofJson?
    endpoints := ← (← endpoints).list? CallTarget.ofJson?
    busCalls := ← Json.orElse [] (Json.list? BusCall.ofJson?) busCalls }

end Discovery

end ServiceGraph
