import ServiceGraph.Source.Phrase
import ServiceGraph.Source.Token
import ServiceGraph.Tree

namespace ServiceGraph.Source

inductive Shape where
  | phrase (p : Phrase)
  | token (kind : TokenKind) (text : String)
  deriving DecidableEq

structure Label where
  shape : Shape
  /-- The line of the first token. -/
  line : Nat
  deriving DecidableEq

abbrev Node := Tree Label

/-- How a source text is read. -/
abbrev Parser := List Char → Node

namespace Node

def shape (t : Node) : Shape := t.label.shape

def line (t : Node) : Nat := t.label.line

def isComment (t : Node) : Bool :=
  match t.shape with
  | .token .comment _ => true
  | _ => false

/-- The children that are not comments. -/
def content (t : Node) : List Node := t.children.filter fun c => !c.isComment

end Node

end ServiceGraph.Source
