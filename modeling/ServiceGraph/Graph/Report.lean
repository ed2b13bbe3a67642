import ServiceGraph.Graph.Adjacency
import ServiceGraph.Graph.Matching
import ServiceGraph.Json.Printer
import ServiceGraph.Text.Utf8

namespace ServiceGraph

/-- The adjacency list as indented JSON. -/
def Discovery.reportBody (d : Discovery) : List Char := Json.pretty 0 d.graph.adjacency.toJson

/-- The report ends with a newline. -/
def Discovery.report (d : Discovery) : List Char := d.reportBody ++ ['\n']

/-- Writes characters until one does not fit into the room that is left, counted in bytes. Gives
what was written, and the room after all of it. -/
def writeWithin (room : Nat) : List Char → List Char × Option Nat
  | [] => ([], some room)
  | c :: rest =>
    if c.utf8Size ≤ room then
      let (written, left) := writeWithin (room - c.utf8Size) rest
      (c :: written, left)
    else ([], none)

/-- What a report could not be written for: its body, or only its last newline. -/
inductive WriteError where
  | body
  | newline
  deriving DecidableEq

def WriteError.message (cause : String) : WriteError → String
  | body => "failed to serialize output: " ++ cause
  | newline => "I/O error: " ++ cause

/-- Writes the report into limited room: what was written, and what went wrong. -/
def Discovery.writeReport (d : Discovery) (room : Nat) : List Char × Option WriteError :=
  match writeWithin room d.reportBody with
  | (written, none) => (written, some .body)
  | (written, some left) =>
    match writeWithin left ['\n'] with
    | (more, none) => (written ++ more, some .newline)
    | (more, some _) => (written ++ more, none)

/-- A place for bytes: how many still fit, and those that it has taken. -/
structure Sink where
  room : Nat
  taken : List UInt8

namespace Sink

def ofRoom (room : Nat) : Sink := ⟨room, []⟩

/-- A write is taken as a whole or refused, which leaves the place as it was. -/
def write (s : Sink) (bytes : List UInt8) : Except Sink Sink :=
  if bytes.length ≤ s.room then .ok ⟨s.room - bytes.length, s.taken ++ bytes⟩ else .error s

/-- Writes one after the other, up to the first one that is refused. -/
def writeAll (s : Sink) : List (List UInt8) → Except Sink Sink
  | [] => .ok s
  | piece :: rest =>
    match s.write piece with
    | .ok s => s.writeAll rest
    | .error s => .error s

end Sink

/-- The pieces in which a serializer writes an adjacency list. -/
abbrev Serializer := AdjacencyList → List (List UInt8)

/-- The pieces are those of the indented text, one after the other. -/
def Serializer.Faithful (serialize : Serializer) : Prop :=
  ∀ l, (serialize l).flatten = Text.encode (Json.pretty 0 l.toJson)

/-- Writes the report as a serializer cuts it, and then its newline: the place afterwards, and what
went wrong. -/
def Discovery.writeTo (d : Discovery) (serialize : Serializer) (s : Sink) :
    Sink × Option WriteError :=
  match s.writeAll (serialize d.graph.adjacency) with
  | .error s => (s, some .body)
  | .ok s =>
    match s.write (Text.encode ['\n']) with
    | .error s => (s, some .newline)
    | .ok s => (s, none)

end ServiceGraph
