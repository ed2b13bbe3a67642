import ServiceGraph.Grammar.Parse
import ServiceGraph.Source.Node
import ServiceGraph.Source.Syntax

namespace ServiceGraph.Source

/-- The kinds of tokens by their numbers: the end of the text, comments, and those in the grammar.
-/
def tokenKinds : List TokenKind :=
  .finish :: .comment :: (Phrase.all.flatMap fun p => (Syntax.forms p).flatMap fun f =>
    f.rule.symbols.filterMap fun
      | .inl kind => some kind
      | .inr _ => none).eraseDups

def tokenCount : Nat := tokenKinds.length

def tokenNumbers : Std.HashMap TokenKind Nat := Std.HashMap.ofList tokenKinds.zipIdx

/-- The number of a kind of tokens. What the grammar does not know may stand everywhere, as comments
do. -/
def tokenNumber (kind : TokenKind) : Nat := tokenNumbers.getD kind 1

/-- The table of the grammar. In some places only, a block or the end of a line may follow a value,
so these tokens tell states apart. -/
def table : Grammar.Table :=
  (Grammar.ofForms tokenKinds Phrase.all Syntax.forms).table
    [tokenNumber .newline, tokenNumber (.fixed "\x7b")]

def input (tokens : Array Token) : Grammar.Input where
  tokens := tokens.map fun t => tokenNumber t.kind
  newline := tokenNumber .newline
  comment := tokenNumber .comment
  plain n :=
    if n = tokenNumber .constant || n = tokenNumber .allocation then tokenNumber .name else n

/-- The phrases by their numbers. -/
def phrases : Array Phrase := Phrase.all.toArray

/-- Whether a phrase has no node of its own: its parts are parts of the phrase around it. -/
def Phrase.isTransparent (p : Phrase) : Bool :=
  [declaration, simpleType, statement, simpleStatement, typeSwitchHeader, expression].contains p

/-- The phrase of a symbol, if it has nodes of its own. -/
def shownPhrase? (symbol : Nat) : Option Phrase :=
  (phrases[symbol - tokenCount]?).filter fun p => !p.isTransparent

mutual

/-- The nodes of a part, before those that follow. -/
def nodesOf (tokens : Array Token) : Grammar.Part → List Node → List Node
  | .node span parts, rest =>
    let token := tokens.getD span.first ⟨.finish, "", 0⟩
    if span.symbol < tokenCount then
      if span.first < span.last then .leaf ⟨.token token.kind token.text, token.line⟩ :: rest
      else rest
    else
      match shownPhrase? span.symbol with
      | some p => .node ⟨.phrase p, token.line⟩ (nodesOfAll tokens parts []) :: rest
      | none => nodesOfAll tokens parts rest

def nodesOfAll (tokens : Array Token) : List Grammar.Part → List Node → List Node
  | [], rest => rest
  | part :: parts, rest => nodesOf tokens part (nodesOfAll tokens parts rest)

end

/-- The syntax tree of a text. -/
def parse (text : List Char) : Node :=
  let tokens := (tokens text).toArray
  .node ⟨.phrase .file, 1⟩ (nodesOfAll tokens (Grammar.parse table (input tokens)) [])

end ServiceGraph.Source
