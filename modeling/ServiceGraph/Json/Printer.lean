import ServiceGraph.Json.Basic

namespace ServiceGraph.Json

/-- Four hexadecimal digits in lower case. -/
def hex4 (n : Nat) : List Char :=
  [n / 4096 % 16, n / 256 % 16, n / 16 % 16, n % 16].map Nat.digitChar

/-- A character inside quotes: the quote, the backslash and the control characters are escaped. -/
def escapeChar (c : Char) : List Char :=
  if c = '"' then ['\\', '"']
  else if c = '\\' then ['\\', '\\']
  else if c = '\x08' then ['\\', 'b']
  else if c = '\t' then ['\\', 't']
  else if c = '\n' then ['\\', 'n']
  else if c = '\x0c' then ['\\', 'f']
  else if c = '\r' then ['\\', 'r']
  else if c.toNat < 32 then '\\' :: 'u' :: hex4 c.toNat
  else [c]

def quote (s : String) : List Char :=
  '"' :: (s.toList.flatMap escapeChar ++ ['"'])

def numberText : JsonNumber → List Char
  | .int n => Decimal.intText n
  | .numeral x => x.text

mutual

/-- The text without blanks. -/
def compact : Json → List Char
  | null => "null".toList
  | bool true => "true".toList
  | bool false => "false".toList
  | num n => numberText n
  | str s => quote s
  | arr items => '[' :: (compactItems items ++ [']'])
  | obj members => '\x7b' :: (compactMembers members ++ ['\x7d'])
  | unreadable => "null".toList

def compactItems : List Json → List Char
  | [] => []
  | [j] => compact j
  | j :: rest => compact j ++ ',' :: compactItems rest

def compactMembers : List (String × Json) → List Char
  | [] => []
  | [(name, j)] => quote name ++ ':' :: compact j
  | (name, j) :: rest => quote name ++ ':' :: (compact j ++ ',' :: compactMembers rest)

end

/-- A new line, indented by two blanks per level. -/
def newline (level : Nat) : List Char := '\n' :: List.replicate (2 * level) ' '

mutual

/-- The text with one item or member a line. Empty arrays and objects stay on their line. -/
def pretty (level : Nat) : Json → List Char
  | null => "null".toList
  | bool true => "true".toList
  | bool false => "false".toList
  | num n => numberText n
  | str s => quote s
  | arr [] => ['[', ']']
  | arr (j :: rest) => '[' :: (prettyItems (level + 1) (j :: rest) ++ newline level ++ [']'])
  | obj [] => ['\x7b', '\x7d']
  | obj (m :: rest) =>
    '\x7b' :: (prettyMembers (level + 1) (m :: rest) ++ newline level ++ ['\x7d'])
  | unreadable => "null".toList

def prettyItems (level : Nat) : List Json → List Char
  | [] => []
  | [j] => newline level ++ pretty level j
  | j :: rest => newline level ++ pretty level j ++ ',' :: prettyItems level rest

def prettyMembers (level : Nat) : List (String × Json) → List Char
  | [] => []
  | [(name, j)] => newline level ++ quote name ++ ':' :: ' ' :: pretty level j
  | (name, j) :: rest =>
    newline level ++ quote name ++ ':' :: ' ' :: (pretty level j ++ ',' :: prettyMembers level rest)

end

end ServiceGraph.Json
