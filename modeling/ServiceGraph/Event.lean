import ServiceGraph.Annotations
import ServiceGraph.Disk.Error

namespace ServiceGraph

inductive Level where
  | info
  | warn
  deriving DecidableEq

def Level.name : Level → String
  | info => "INFO"
  | warn => "WARN"

inductive Event where
  /-- A program has no function to start from. -/
  | noEntryPoint (service : String)
  /-- The location of a call is not known; the trace is the part of it that is shown. -/
  | unresolvedCall (service method : String) (trace : List Position)
  /-- The annotation of a call cannot be read. -/
  | malformedHint (location : String) (error : CallHint.SyntaxError)
  /-- A comment cannot be read as an annotation. -/
  | malformedComment (service : String) (position : Position) (error : CallHint.SyntaxError)
  | discoveredHint (service : String) (position : Position) (text : String)
  | skippedFile (path : String)
  | skippedEntry (path : String) (error : DiskError)
  /-- An annotation sends a call to a service that does not exist. -/
  | unknownTarget (service target location : String)
  deriving DecidableEq

namespace Event

def level : Event → Level
  | unresolvedCall .. | discoveredHint .. => .info
  | _ => .warn

def message : Event → String
  | noEntryPoint _ => "no entry point, nothing to walk"
  | unresolvedCall .. => "unresolved call"
  | malformedHint .. | malformedComment .. => "ignoring malformed annotation"
  | discoveredHint .. => "discovered annotation"
  | skippedFile _ => "skipping file"
  | skippedEntry .. => "skipping unreadable entry"
  | unknownTarget .. => "annotation names an unknown service"

/-- Positions from the outermost to the innermost call. -/
def traceText (trace : List Position) : String := " -> ".intercalate (trace.map Position.text)

/-- The details of an event by name. -/
def fields : Event → List (String × Json)
  | noEntryPoint service => [("service", .str service)]
  | unresolvedCall service method trace =>
    [("service", .str service), ("method", .str method), ("trace", .str (traceText trace))]
  | malformedHint location error =>
    [("location", .str location), ("error", .str error.message)]
  | malformedComment service position error =>
    [("service", .str service), ("file", .str position.file), ("line", idJson position.line),
      ("error", .str error.message)]
  | discoveredHint service position text =>
    [("service", .str service), ("file", .str position.file), ("line", idJson position.line),
      ("annotation", .str text)]
  | skippedFile path => [("error", .str ("failed to read '" ++ path ++ "'"))]
  | skippedEntry path error =>
    [("error", .str ("IO error for operation on " ++ path ++ ": " ++ error.message))]
  | unknownTarget service target location =>
    [("service", .str service), ("target", .str target), ("location", .str location)]

end Event

/-- Events for the calls whose annotation cannot be read. -/
def annotationEvents (targets : List CallTarget) (annotations : Annotations) : List Event :=
  targets.filterMap fun t => do
    return .malformedHint t.location (← t.annotationFault? annotations)

end ServiceGraph
