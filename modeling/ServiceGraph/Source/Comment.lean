import ServiceGraph.Source.Bus

namespace ServiceGraph.Source

/-- How the comment of an annotation starts. -/
def marker : List Char := "//netdep:".toList

/-- The text of an annotation without its marker, and its line. -/
def hint? (t : Node) : Option (UInt32 × String) :=
  match t.shape with
  | .token .comment s =>
    (Text.dropStart? marker s.toList).map fun text =>
      (lineNumber t.line, String.ofList (Text.trim text))
  | _ => none

/-- The annotations in a syntax tree, in order. -/
def Node.hints (t : Node) : List (UInt32 × String) := (Cursor.ofTree t).scan hint?

end ServiceGraph.Source
