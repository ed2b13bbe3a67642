import ServiceGraph.Event
import ServiceGraph.Graph.Basic

namespace ServiceGraph

def httpProtocol : String := "HTTP"

def busProtocol : String := "NATS"

/-- The port of a service that does not say on which one it listens. -/
def defaultPort : String := ":80"

namespace CallTarget

/-- An endpoint that says on which port its service listens. -/
def isPort (e : CallTarget) : Bool := e.requestLocation.toList.head? == some ':'

/-- An endpoint that offers a path. -/
def isRoute (e : CallTarget) : Bool :=
  e.requestLocation.isEmpty || e.requestLocation.toList.head? == some '/'

/-- The call of a client as the graph shows it. -/
def networkCall (t : CallTarget) : NetworkCall :=
  ⟨httpProtocol, t.requestLocation, t.methodName, [], t.location⟩

end CallTarget

def BusCall.networkCall (c : BusCall) : NetworkCall := ⟨busProtocol, c.subject, "", [], c.location⟩

/-- The first port that a service announces. -/
def portOf (endpoints : List CallTarget) (service : String) : String :=
  match endpoints.find? fun e => e.isPort && e.serviceName == service with
  | some e => e.requestLocation
  | none => defaultPort

/-- The address of a path of a service. -/
def routeUrl (endpoints : List CallTarget) (e : CallTarget) : String :=
  "http://" ++ e.serviceName ++ portOf endpoints e.serviceName ++ e.requestLocation

/-- Addresses with the services that offer them, in the order of the endpoints. -/
def routes (endpoints : List CallTarget) : List (String × String) :=
  (endpoints.filter (·.isRoute)).map fun e => (routeUrl endpoints e, e.serviceName)

namespace Discovery

/-- Every service that something was found in, in ascending order. -/
def services (d : Discovery) : List String :=
  sortedSet ((d.clients ++ d.endpoints).map (·.serviceName) ++ d.busCalls.map (·.serviceName))

/-- The service that a client call goes to. A service named by an annotation comes first; else the
first one that offers the location. -/
def clientTarget (d : Discovery) (client : CallTarget) : String :=
  match client.targetService with
  | some named => if d.services.contains named then named else unknownService
  | none =>
    if client.isResolved then
      ((routes d.endpoints).lookup client.requestLocation).getD unknownService
    else unknownService

def clientEdge (d : Discovery) (client : CallTarget) : Edge :=
  ⟨client.serviceName, d.clientTarget client, client.networkCall⟩

end Discovery

/-- The services other than its own that consume the subject of a producer. -/
def consumersOf (calls : List BusCall) (producer : BusCall) : List String :=
  (sortedSet ((calls.filter fun c => c.role = .consumer && c.subject == producer.subject).map
    (·.serviceName))).filter (· != producer.serviceName)

/-- One edge to each consumer, or one to the unknown service when there is none. -/
def producerEdges (calls : List BusCall) (producer : BusCall) : List Edge :=
  match consumersOf calls producer with
  | [] => [⟨producer.serviceName, unknownService, producer.networkCall⟩]
  | peers => peers.map fun peer => ⟨producer.serviceName, peer, producer.networkCall⟩

def busEdges (calls : List BusCall) : List Edge :=
  (calls.filter fun c => c.role = .producer).flatMap (producerEdges calls)

namespace Discovery

/-- All calls between different services, those of clients first. -/
def pendingEdges (d : Discovery) : List Edge :=
  (d.clients.map d.clientEdge ++ busEdges d.busCalls).filter fun e => e.source != e.target

/-- A node for every service, and the unknown one if something goes there. A service that has the
name of the unknown one gets none. -/
def serviceNodes (d : Discovery) : List ServiceNode :=
  (d.services.filter (· != unknownService)).map ServiceNode.known ++
    if d.pendingEdges.any (·.target == unknownService) then [ServiceNode.unknown] else []

/-- The nodes in ascending order of their names. -/
def nodes (d : Discovery) : List ServiceNode :=
  (Dict.ofList (d.serviceNodes.map fun n => (n.name, n))).entries.map (·.2)

/-- The graph of what was found. -/
def graph (d : Discovery) : Graph := (Graph.ofNodes d.nodes).connectAll d.pendingEdges

/-- Events for client calls whose annotation names no service. -/
def graphEvents (d : Discovery) : List Event :=
  d.clients.filterMap fun c => do
    let named ← c.targetService
    if d.services.contains named then none
    else return .unknownTarget c.serviceName named c.location

end Discovery

end ServiceGraph
