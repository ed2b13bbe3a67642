import ServiceGraph.Graph.Basic
import ServiceGraph.Program.Codec

namespace ServiceGraph

namespace NetworkCall

/-- The method name is not written. -/
def toJson (c : NetworkCall) : Json :=
  .obj [("protocol", .str c.protocol), ("url", .str c.url),
    ("arguments", .arr (c.arguments.map .str)),
    ("location", .str c.location)]

def ofJson? (j : Json) : Option NetworkCall := do
  let [protocol, url, arguments, location] ←
    j.fields? ["protocol", "url", "arguments", "location"] | none
  return {
    protocol := ← (← protocol).string?
    url := ← (← url).string?
    methodName := ""
    arguments := ← Json.orElse [] (Json.list? Json.string?) arguments
    location := ← (← location).string? }

end NetworkCall

/-- The calls to one service. -/
@[ext] structure PeerCalls where
  service : String
  calls : List NetworkCall
  count : Nat
  deriving DecidableEq

namespace PeerCalls

def toJson (p : PeerCalls) : Json :=
  .obj [("service", .str p.service), ("calls", .arr (p.calls.map NetworkCall.toJson)),
    ("count", .ofNat p.count)]

def ofJson? (j : Json) : Option PeerCalls := do
  let [service, calls, count] ← j.fields? ["service", "calls", "count"] | none
  return {
    service := ← (← service).string?
    calls := ← (← calls).list? NetworkCall.ofJson?
    count := ← (← count).natBelow? UInt64.size }

end PeerCalls

abbrev AdjacencyList := Dict String (List PeerCalls)

namespace AdjacencyList

/-- The sum of all counts, as a number of 64 bits. -/
def callCount (l : AdjacencyList) : UInt64 :=
  (l.entries.flatMap (·.2)).foldr (fun peer n => UInt64.ofNat peer.count + n) 0

def toJson (l : AdjacencyList) : Json :=
  Json.ofDict (fun peers => .arr (peers.map PeerCalls.toJson)) l

def ofJson? : Json → Option AdjacencyList := Json.dict? (Json.list? PeerCalls.ofJson?)

end AdjacencyList

namespace Graph

/-- Calls by source and target, in the order of the edges. Every node is there as a source. -/
def grouped (g : Graph) : Dict String (Dict String (List NetworkCall)) :=
  g.edges.foldl
    (fun d e => d.update e.source .empty (·.update e.target [] (· ++ [e.call])))
    (.ofList (g.nodes.map fun n => (n.name, .empty)))

def adjacency (g : Graph) : AdjacencyList :=
  g.grouped.map fun peers => peers.entries.map fun e => ⟨e.1, e.2, e.2.length⟩

end Graph

end ServiceGraph
