import ServiceGraph.Source.Number

namespace ServiceGraph.Source

inductive TokenKind where
  | finish
  | newline
  | comment
  | name
  /-- A name of a value that is known everywhere. It can name a type too. -/
  | constant
  /-- A name of a function that takes a type. It can name a type or a value too. -/
  | allocation
  /-- A number or a single quoted character. -/
  | literal
  | text
  /-- An operator before or between sums. -/
  | sign
  /-- An operator between factors only. -/
  | factor
  | comparison
  | increment
  /-- An assignment that is also an operation. -/
  | update
  /-- A keyword or another mark, as written. -/
  | fixed (s : String)
  deriving DecidableEq, Hashable

/-- A token as written, and the line where it starts, counted from one. -/
structure Token where
  kind : TokenKind
  text : String
  line : Nat
  deriving DecidableEq

def keywords : List String :=
  ["break", "case", "chan", "const", "continue", "default", "defer", "else", "fallthrough",
    "for", "func", "go", "goto", "if", "import", "interface", "map", "package", "range", "return",
    "select", "struct", "switch", "type", "var"]

def wordKind (s : String) : TokenKind :=
  if keywords.contains s then .fixed s
  else if ["nil", "true", "false", "iota"].contains s then .constant
  else if ["new", "make"].contains s then .allocation
  else .name

/-- The marks of several characters, where a longer one comes before its start. -/
def longMarks : List String :=
  ["<<=", ">>=", "&^=", "...", "+=", "-=", "*=", "/=", "%=", "&=", "|=", "^=", "==", "!=", "<=",
    ">=", ":=", "&&", "||", "<-", "++", "--", "<<", ">>", "&^"]

def markKind (s : String) : TokenKind :=
  if ["+", "-", "^"].contains s then .sign
  else if ["/", "%", "<<", ">>", "&^"].contains s then .factor
  else if ["==", "!=", "<", "<=", ">", ">="].contains s then .comparison
  else if ["++", "--"].contains s then .increment
  else if ["<<=", ">>=", "&^=", "+=", "-=", "*=", "/=", "%=", "&=", "|=", "^="].contains s then
    .update
  else .fixed s

/-- The length of the mark at the start of a text. -/
def markLength (text : List Char) : Nat :=
  ((longMarks.find? fun s => s.toList.isPrefixOf text).map String.length).getD 1

/-- Letters of other scripts all count as parts of words. -/
def isWordChar (c : Char) : Bool := c.isAlphanum || c == '_' || 128 ≤ c.toNat

/-- What a character belongs to. The characters of a comment are kept last first. -/
inductive Mode where
  | between
  /-- A token that is known already and has more characters after this one. -/
  | inside (more : Nat)
  | quoted (kind : TokenKind) (close : Char) (escaped : Bool)
  | raw
  | lineComment (chars : List Char)
  | blockComment (chars : List Char)
  deriving DecidableEq

/-- A scan up to some character: the line of that character, the line where the current token
starts, and the tokens, last first. -/
structure Scan where
  mode : Mode
  line : Nat
  start : Nat
  tokens : List Token
  deriving DecidableEq

namespace Scan

def start0 : Scan := ⟨.between, 1, 1, []⟩

/-- Ends the current token. -/
def emit (s : Scan) (kind : TokenKind) (text : String) : Scan :=
  { s with mode := .between, tokens := ⟨kind, text, s.start⟩ :: s.tokens }

def emitComment (s : Scan) (chars : List Char) : Scan :=
  s.emit .comment (String.ofList chars.reverse)

def nextLine (s : Scan) : Scan := { s with line := s.line + 1 }

def enter (s : Scan) (mode : Mode) : Scan := { s with mode, start := s.line }

/-- The end of a line. Several in a row are one token. -/
def endLine (s : Scan) : Scan :=
  match s.tokens with
  | ⟨.newline, _, _⟩ :: _ => s
  | _ => (s.enter .between).emit .newline "\n"

/-- A token of as many characters of a text that starts with it. -/
def known (s : Scan) (kind : String → TokenKind) (length : Nat) (text : List Char) : Scan :=
  let word := String.ofList (text.take length)
  let s := (s.enter .between).emit (kind word) word
  match length - 1 with
  | 0 => s
  | more + 1 => { s with mode := .inside more }

/-- Whether a number starts with a character, given the text after it. -/
def startsNumber (c : Char) (rest : List Char) : Bool :=
  c.isDigit || (c == '.' && rest.head?.any Char.isDigit)

/-- A character that stands between tokens or starts one, and the text after it. -/
def between (s : Scan) (c : Char) (rest : List Char) : Scan :=
  if c = '\n' then s.endLine.nextLine
  else if c = ' ' || c = '\t' || c = '\r' || c = '\ufeff' then s
  else if startsNumber c rest then
    s.known (fun _ => .literal) (numberLength (c :: rest)) (c :: rest)
  else if isWordChar c then
    s.known wordKind (rest.takeWhile isWordChar).length.succ (c :: rest)
  else if c = '"' then s.enter (.quoted .text c false)
  else if c = '\'' then s.enter (.quoted .literal c false)
  else if c.toNat = 96 then s.enter .raw
  else if c = '/' && rest.head? == some '/' then s.enter (.lineComment [c])
  else if c = '/' && rest.head? == some '*' then s.enter (.blockComment [c])
  else s.known markKind (markLength (c :: rest)) (c :: rest)

/-- One character, and the text after it. A comment does not end a line, even if it stands on
several. -/
def step (s : Scan) (c : Char) (rest : List Char) : Scan :=
  match s.mode with
  | .between => s.between c rest
  | .inside 0 => { s with mode := .between }
  | .inside (more + 1) => { s with mode := .inside more }
  | .quoted kind close escaped =>
    if escaped then
      let s := if c = '\n' then s.nextLine else s
      { s with mode := .quoted kind close false }
    else if c = '\\' then { s with mode := .quoted kind close true }
    else if c = close then s.emit kind ""
    else if c = '\n' then (s.emit kind "").between c rest
    else s
  | .raw =>
    if c.toNat = 96 then s.emit .text ""
    else if c = '\n' then s.nextLine
    else s
  | .lineComment chars =>
    if c = '\n' then (s.emitComment chars).between c rest
    else { s with mode := .lineComment (c :: chars) }
  | .blockComment chars =>
    if c = '/' && chars.head? == some '*' && 2 < chars.length then s.emitComment (c :: chars)
    else if c = '\n' then { s with mode := .blockComment (c :: chars) }.nextLine
    else { s with mode := .blockComment (c :: chars) }

/-- The end of the text, which ends its last line too. -/
def finish (s : Scan) : Scan :=
  match s.mode with
  | .lineComment chars => (s.emitComment chars).endLine
  | .blockComment chars => (s.emitComment chars).endLine
  | _ => s.endLine

/-- The rest of a text. -/
def run (s : Scan) : List Char → Scan
  | [] => s.finish
  | c :: rest => (s.step c rest).run rest

end Scan

/-- The tokens of a text in order. -/
def tokens (text : List Char) : List Token := (Scan.start0.run text).tokens.reverse

end ServiceGraph.Source
