import ServiceGraph.Disk.Basic
import ServiceGraph.Event
import ServiceGraph.Source.Comment

namespace ServiceGraph

/-- Whether a file takes part in a service. Tests do not. -/
def isSource (path : String) : Bool :=
  let name := Text.afterLast '/' path.toList
  Text.endsWith ".go".toList name && !Text.endsWith "_test.go".toList name

/-- A text with its path, or what has to be said instead. -/
abbrev SourceFile := Except Event (String × List Char)

namespace Disk

/-- The source files below a directory. -/
def sources (d : Disk) (directory : String) : List SourceFile :=
  match d.filesBelow directory with
  | .error e => [.error (.skippedEntry directory e)]
  | .ok paths =>
    (paths.filter isSource).map fun path =>
      match d.readText path with
      | .ok text => .ok (path, text.toList)
      | .error _ => .error (.skippedFile path)

/-- The annotations below a directory with their positions, in order. -/
def hints (d : Disk) (parse : Source.Parser) (directory : String) :
    List (Except Event (Position × String)) :=
  (d.sources directory).flatMap fun
    | .error e => [.error e]
    | .ok (path, text) =>
      (parse text).hints.map fun (line, hint) => .ok (⟨normalisePath path, line⟩, hint)

/-- The annotations that can be read. The last one of a position counts. -/
def collectAnnotations (d : Disk) (parse : Source.Parser) (directory : String) :
    Dict Position String :=
  .ofList <| (d.hints parse directory).filterMap fun
    | .error _ => none
    | .ok (position, text) =>
      match CallHint.parse text.toList with
      | .ok _ => some (position, text)
      | .error _ => none

/-- What there is to say about the annotations of a service. -/
def hintEvents (d : Disk) (parse : Source.Parser) (service directory : String) (verbose : Bool) :
    List Event :=
  (d.hints parse directory).filterMap fun
    | .error e => some e
    | .ok (position, text) =>
      match CallHint.parse text.toList with
      | .ok _ => if verbose then some (.discoveredHint service position text) else none
      | .error e => some (.malformedComment service position e)

/-- The calls to the bus below a directory. -/
def busCalls (d : Disk) (parse : Source.Parser) (service directory : String) : List BusCall :=
  (d.sources directory).flatMap fun
    | .error _ => []
    | .ok (path, text) => (parse text).busCalls service (normalisePath path)

/-- What there is to say about files that cannot be read. -/
def sourceEvents (d : Disk) (directory : String) : List Event :=
  (d.sources directory).filterMap fun
    | .error e => some e
    | .ok _ => none

end Disk

end ServiceGraph
