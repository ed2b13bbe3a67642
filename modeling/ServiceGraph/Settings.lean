import ServiceGraph.Annotations
import ServiceGraph.Environment

namespace ServiceGraph

/-- Signatures of interest, each with the position of the argument that counts. The order is the one
in which signatures were first added. -/
abbrev Registry := List (String × UInt64)

namespace Registry

/-- Adds a signature, or changes the position of one that is there. -/
def put (r : Registry) (signature : String) (index : UInt64) : Registry :=
  if r.any (·.1 == signature) then
    r.map fun e => if e.1 == signature then (signature, index) else e
  else r ++ [(signature, index)]

def ofList (entries : List (String × UInt64)) : Registry :=
  entries.foldl (fun r e => put r e.1 e.2) []

def index? (r : Registry) (signature : String) : Option UInt64 := List.lookup signature r

end Registry

/-- What a call to a registered signature means. -/
inductive Action where
  | client
  | endpoint
  | substitute
  deriving DecidableEq

structure Settings where
  maxRecursionDepth : Nat
  maxTraceDepth : Nat
  clients : Registry
  endpoints : Registry
  /-- Functions that look up an environment variable. -/
  substitutes : Registry
  ignored : List String
  environment : Environment
  annotations : Annotations
  verbose : Bool
  deriving DecidableEq

namespace Settings

def defaultClients : Registry :=
  ["Do", "Get", "Post", "Head", "PostForm"].map (fun m => ("(*net/http.Client)." ++ m, 1)) ++
    ["Get", "Post", "Head", "PostForm"].map (fun f => ("net/http." ++ f, 0)) ++
    [("net/http.NewRequest", 1), ("net/http.NewRequestWithContext", 2)]

def defaultEndpoints : Registry :=
  [("net/http.Handle", 0), ("net/http.HandleFunc", 0), ("(*net/http.ServeMux).Handle", 1),
      ("(*net/http.ServeMux).HandleFunc", 1), ("net/http.ListenAndServe", 0)] ++
    ["*github.com/gin-gonic/gin.RouterGroup",
      "*github.com/gin-gonic/gin.Engine"].flatMap fun router =>
      ["GET", "POST", "PUT", "PATCH", "DELETE", "HEAD", "OPTIONS", "Any"].map fun verb =>
        ("(" ++ router ++ ")." ++ verb, 1)

def defaultSubstitutes : Registry := [("os.Getenv", 0)]

def defaultIgnored : List String :=
  ["fmt", "reflect", "net/url", "strings", "bytes", "io", "errors", "runtime",
    "internal/reflectlite", "math/bits"]

def defaultMaxDepth : Nat := 16

def default : Settings where
  maxRecursionDepth := defaultMaxDepth
  maxTraceDepth := defaultMaxDepth
  clients := defaultClients
  endpoints := defaultEndpoints
  substitutes := defaultSubstitutes
  ignored := defaultIgnored
  environment := .empty
  annotations := .empty
  verbose := false

instance : Inhabited Settings := ⟨default⟩

def withEnvironment (s : Settings) (env : Environment) : Settings := { s with environment := env }

def withAnnotations (s : Settings) (annotations : Annotations) : Settings :=
  { s with annotations := s.annotations.merge annotations }

def withMaxDepth (s : Settings) (depth : Nat) : Settings :=
  { s with maxRecursionDepth := depth, maxTraceDepth := depth }

def withVerbose (s : Settings) (verbose : Bool) : Settings := { s with verbose := verbose }

/-- Names without repetitions, in order of their first occurrence. -/
def withIgnored (s : Settings) (names : List String) : Settings :=
  { s with ignored := names.foldl (fun l n => if l.contains n then l else l ++ [n]) [] }

/-- What a call to a signature means, and the position of its argument that counts. -/
def classify (s : Settings) (signature : String) : Option (Action × UInt64) :=
  match s.clients.index? signature with
  | some i => some (.client, i)
  | none =>
    match s.endpoints.index? signature with
    | some i => some (.endpoint, i)
    | none => (s.substitutes.index? signature).map (.substitute, ·)

/-- A package is passed over if its path, or the part of it before the first `/`, is listed. -/
def isIgnored (s : Settings) (package : String) : Bool :=
  s.ignored.contains package ||
    s.ignored.contains (String.ofList (package.toList.takeWhile (· != '/')))

def variableValue? (s : Settings) (service name : String) : Option String :=
  s.environment.get? service name

end Settings

end ServiceGraph
