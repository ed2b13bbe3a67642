import ServiceGraph.Dict

namespace ServiceGraph

/-- The name of the node for calls whose receiver is not known. -/
def unknownService : String := "UnknownService"

structure ServiceNode where
  name : String
  isUnknown : Bool
  deriving DecidableEq

/-- The node of a service. -/
def ServiceNode.known (name : String) : ServiceNode := ⟨name, false⟩

/-- The node for calls whose receiver is not known. -/
def ServiceNode.unknown : ServiceNode := ⟨unknownService, true⟩

@[ext] structure NetworkCall where
  protocol : String
  url : String
  methodName : String
  arguments : List String
  location : String
  deriving DecidableEq

@[ext] structure Edge where
  source : String
  target : String
  call : NetworkCall
  deriving DecidableEq

structure Graph where
  nodes : List ServiceNode
  edges : List Edge
  deriving DecidableEq

namespace Graph

def ofNodes (nodes : List ServiceNode) : Graph := ⟨nodes, []⟩

def node? (g : Graph) (name : String) : Option ServiceNode := g.nodes.find? (·.name == name)

/-- Whether both ends of an edge are nodes. -/
def accepts (g : Graph) (e : Edge) : Bool := (g.node? e.source).isSome && (g.node? e.target).isSome

/-- Adds an edge; one that does not run between nodes is dropped. -/
def connect (g : Graph) (e : Edge) : Graph :=
  if g.accepts e then { g with edges := g.edges ++ [e] } else g

/-- Adds edges in order. -/
def connectAll (g : Graph) (edges : List Edge) : Graph := edges.foldl connect g

end Graph

end ServiceGraph
